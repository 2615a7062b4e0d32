import NoteArchive.Proofs.Archive.AbortNotice
import NoteArchive.Proofs.Archive.Attempts
import NoteArchive.Proofs.Archive.Preservation

/-!
# What the user is told of a run

The messages after a run are those of this run alone, whatever was told before: one if the system
refused to save the settings, then those about the candidates in the order of their paths, and at
the end a summary.  Or, where the run ended without a result, a last message that says so.

* `Operation.listed`: the world where the batch of an operation begins.
* `Operation.Completed`: what a run with a result did and told.  `completed_of_run`: each one did
  this.
* `aborted_of_run`: what a run without a result told.
* `saveNotices_of_settingsIn`: when the first message is there; `aborted_of_cut`: half a character
  in the settings ends a run without it.
-/

namespace NoteArchive

open Act Vault

variable {v : Vault}

/-- A listing that does not fail uses up one turn, and tells which files there are. -/
theorem Vault.of_notes_ok {w w' : World} {notes : List Note}
    (h : v.notes.runIn w = (.ok notes, w')) :
    notes = v.notesOn w.disk ∧ World.Agrees
      { w with intrusions := { w.intrusions with listing := w.intrusions.listing.tail } } w' := by
  rcases hturn : (interrupt .listing).runIn w with ⟨e | _, w₁⟩
  · rw [Vault.notes, runIn_bind_of_error hturn] at h
    cases h
  · obtain ⟨rfl, rfl⟩ : notes = v.notesOn w₁.disk ∧ w' = w₁ := by
      rcases runIn_notes_of_interrupt (v := v) hturn with ⟨-, hrun⟩ | ⟨s, -, -, hrun⟩ <;>
        rw [h] at hrun <;> cases hrun
      exact ⟨rfl, rfl⟩
    have hturns : w.intrusions.turns .listing = w.intrusions.listing := rfl
    rw [runIn_interrupt, hturns] at hturn
    rcases hrow : w.intrusions.listing with _ | ⟨_ | i, rest⟩ <;> rw [hrow] at hturn <;> cases hturn
    · refine ⟨rfl, rfl, ?_, rfl⟩
      rw [List.tail_nil, ← hrow]
    · exact ⟨rfl, rfl, rfl, rfl⟩

namespace Operation

variable {op : Operation} {today : Option Date} {verbose : Bool} {around : Nat} {day : Date}
  {w w₁ w₂ w' : World} {s : Settings} {t : Tally} {handled : List Handling}

/-- The world where the batch of an operation begins: the settings were written back as far as this
could be done, and the files were listed. -/
def listed (v : Vault) (s : Settings) (w : World) : World :=
  { w with
    disk := v.savedOn w.disk s.fileBytes
    intrusions := { w.intrusions with listing := w.intrusions.listing.tail } }

theorem listed_agrees (h : w.Agrees w') (v : Vault) (s : Settings) :
    (listed v s w).Agrees (listed v s w') := by
  constructor
  · exact congrArg (v.savedOn · s.fileBytes) h.disk
  · exact congrArg (fun i : Intrusions => { i with listing := i.listing.tail }) h.intrusions
  · exact h.permitted

/-- The candidates of an operation were handled in their order and counted. -/
structure Completed (op : Operation) (v : Vault) (around : Nat) (day : Date) (w : World)
    (s : Settings) (handled : List Handling) (t : Tally) (w' : World) : Prop where
  settings : settingsIn v around w = .ok s
  decided : handled.map Handling.decision =
    (batch s day).plan ((v.notesOn w.disk).filter op.concerns)
  attempts : ∃ w₀, (v.ensureFolder s.targetFolder).runIn (listed v s w) = (.ok (), w₀) ∧
    v.Attempts (handled.filterMap Handling.attempt?) w₀ w'
  counted : t = handled.foldl Tally.count {}

theorem Completed.of_agrees (h : op.Completed v around day w₁ s handled t w₂) (ha : w.Agrees w₁)
    (ha' : w₂.Agrees w') : op.Completed v around day w s handled t w' where
  settings := (settingsIn_of_agrees ha v around).symm.trans h.settings
  decided := by rw [h.decided, ha.disk]
  attempts := by
    obtain ⟨w₀, hensure, hattempts⟩ := h.attempts
    obtain ⟨w₀', hensure, ha₀⟩ :=
      (v.agrees_ensureFolder s.targetFolder).of_runIn (listed_agrees ha v s).symm hensure
    exact ⟨w₀', hensure, (hattempts.agrees_right ha').of_agrees ha₀.symm⟩
  counted := h.counted

/-- What the user is told of an operation with a result. -/
def messages (op : Operation) (v : Vault) (around : Nat) (w : World) (s : Settings)
    (handled : List Handling) (t : Tally) : List String :=
  saveNotices v around w ++ handled.filterMap (Handling.notice? op.label) ++
    (op.summary s t).toList

/-- The work with a result. -/
theorem completed_of_body (ht : w.disk.IsTree)
    (h : (op.body v today around).runIn w = (.ok t, w')) :
    ∃ s handled, op.Completed v around (Operation.day today w.clock) w s handled t w' ∧
      w'.notices = w.notices ++ op.messages v around w s handled t := by
  rcases settingsIn_cases v around w with ⟨e, w₁, hset⟩ | ⟨s, w₁, hset⟩
  · rw [hset.body] at h
    cases h
  obtain ⟨hroot, hlike⟩ := hset.saved ht
  rw [hset.body] at h
  obtain ⟨w₂, ha₂, hquiet₂, ⟨e, -, he⟩ |
    ⟨notes, w₃, w₄, w₅, hnotes, ha₄, hquiet₄, hrun, ha₅, hclosing⟩⟩ := of_afterSettings h
  · cases he
  obtain ⟨rfl, ha₃⟩ := of_notes_ok hnotes
  have hdisk : w₂.disk = v.savedOn w.disk s.fileBytes := ha₂.disk.trans hlike.disk
  have hintrusions : w₂.intrusions = w.intrusions := ha₂.intrusions.trans hlike.intrusions
  have hpermitted : w₂.permitted = w.permitted := ha₂.permitted.trans hlike.permitted
  rw [hlike.clock, hdisk, notesOn_savedOn ht hroot] at hrun
  obtain ⟨w₆, handled, hensure, hh, rfl⟩ := Batch.handles_run hrun
  refine ⟨s, handled, ⟨hset.settings, hh.decided, ?_, rfl⟩, ?_⟩
  · have hlisted : w₄.Agrees (listed v s w) := by
      refine (ha₃.trans ha₄).symm.trans ⟨hdisk.symm, ?_, hpermitted.symm⟩
      rw [hintrusions]
      rfl
    obtain ⟨w₀, hensure, ha₀⟩ := (v.agrees_ensureFolder _).of_runIn hlisted hensure
    exact ⟨w₀, hensure, (hh.attempts.agrees_right ha₅).of_agrees ha₀.symm⟩
  · -- the listing and the target folder come between the settings and the candidates
    have hbefore : w₆.notices = w.notices ++ saveNotices v around w := by
      rw [(v.silent_ensureFolder _).of_runIn hensure, hquiet₄, (v.silent_notes).of_runIn hnotes,
        hquiet₂, hset.notices, saveNotices, hset.settings]
    rw [hclosing, hh.notices, hbefore, messages]
    simp only [List.append_assoc]
    rfl

/-- A run with a result. -/
theorem completed_of_run (ht : w.disk.IsTree)
    (h : (op.run v today verbose around).runIn w = (.ok (some t), w')) :
    ∃ s handled,
      op.Completed v around (Operation.day today (clockAt verbose w.clock)) w s handled t w' ∧
        w'.notices = op.messages v around w s handled t := by
  rcases run_parts h with ⟨e, -, he⟩ | ⟨setup, w₁, e | t', w₂, hopen, hbody, hr, ha₂, hend⟩
  · cases he
  · cases hr
  · obtain rfl : t = t' := Option.some.inj (Except.ok.inj hr)
    obtain ⟨ha, hclock, hnone⟩ := of_openLog_ok hopen
    obtain ⟨s, handled, hcompleted, hnotices⟩ := completed_of_body (ha.disk ▸ ht) hbody
    rw [hclock] at hcompleted
    refine ⟨s, handled, hcompleted.of_agrees ha ha₂, ?_⟩
    rw [hend, hnotices, hnone, ending, List.append_nil, List.nil_append, messages, messages,
      saveNotices_of_agrees ha]

/-- A run without a result. -/
theorem aborted_of_run (ht : w.disk.IsTree)
    (h : (op.run v today verbose around).runIn w = (.ok none, w')) :
    ∃ e w₁,
      (op.work v (Operation.day today (clockAt verbose w.clock)) around).runIn w =
        (.error e, w₁) ∧
      w₁.Agrees w' ∧ w'.notices = saveNotices v around w ++ [op.abortNotice e] := by
  rcases run_parts h with ⟨e, -, he⟩ | ⟨setup, w₁, e | t, w₂, hopen, hbody, hr, ha₂, hend⟩
  · cases he
  · obtain ⟨ha, hclock, hnone⟩ := of_openLog_ok hopen
    obtain ⟨w₃, hwork, ha₃⟩ := of_body (ha.disk ▸ ht) hbody
    rw [hclock] at hwork
    obtain ⟨w₄, hwork, ha₄⟩ := (agrees_work op v _ around).of_runIn ha.symm hwork
    refine ⟨e, w₄, hwork, ha₄.symm.trans (ha₃.trans ha₂), ?_⟩
    rw [hend, notices_of_body hbody, hnone, List.nil_append, ending, saveNotices_of_agrees ha]
  · cases hr

/-- Where an operation has settings, the first message is there exactly if the system lets nothing
be put into their file. -/
theorem saveNotices_of_settingsIn (ht : w.disk.IsTree) (h : settingsIn v around w = .ok s) :
    (v.CanSave w.disk → saveNotices v around w = []) ∧
      (¬ v.CanSave w.disk → ∃ e, saveNotices v around w = [unsavedNotice e]) := by
  obtain ⟨-, hroot, -⟩ := of_settingsIn ht h
  rw [← putSettings_succeeds_iff ht hroot [], saveNotices, h]
  dsimp only
  rw [saveNotices_eq]
  rcases (v.putSettings []).runIn w with ⟨e | _, w'⟩
  · refine ⟨?_, fun _ => ⟨e, rfl⟩⟩
    rintro ⟨_, hput⟩
    cases hput
  · exact ⟨fun _ => rfl, fun hput => absurd ⟨w', rfl⟩ hput⟩

/-- Half a character in the settings ends a run, and the user is only told this. -/
theorem aborted_of_cut {loaded : Loaded} {cut : Json.Cut} {result : Option Tally}
    (ht : w.disk.IsTree) (hcheck : v.checkRoot.runIn w = (.ok (), w))
    (hload : v.settingsOn w.disk (around + 3) = .ok loaded)
    (hcut : loaded.raw.validated.fileBytes? = .error cut)
    (h : (op.run v today verbose around).runIn w = (.ok result, w')) :
    result = none ∧ w'.notices = [op.abortNotice (.notEncodable cut.error)] := by
  obtain ⟨w₁, hset, -⟩ := unsettled_of_cut ht hcheck hload hcut
  cases result with
  | some t =>
    obtain ⟨s, handled, hcompleted, -⟩ := completed_of_run ht h
    have hs := hset.settings.symm.trans hcompleted.settings
    cases hs
  | none =>
    obtain ⟨e, w₂, hwork, -, hnotices⟩ := aborted_of_run ht h
    obtain ⟨he, -⟩ := Prod.mk.inj (hwork.symm.trans (hset.work op _))
    rw [hnotices, saveNotices, hset.settings, Except.error.inj he]
    exact ⟨rfl, rfl⟩

end Operation

/-- Each attempt and each candidate without a date has one message, and no other candidate has
one. -/
theorem Handling.length_filterMap_notice? (label : String) (handled : List Handling) :
    (handled.filterMap (notice? label)).length =
      (handled.filterMap attempt?).length +
        (handled.map decision).countP fun d => d.verdict = .skip .unparseable := by
  induction handled with
  | nil => rfl
  | cons a rest ih =>
    cases a with
    | left note reason =>
      have hattempt : attempt? (.left note reason) = none := rfl
      rw [List.filterMap_cons_none hattempt, List.map_cons, decision]
      by_cases hreason : reason = .unparseable
      · have hnotice : (notice? label (.left note reason)) = some _ := if_pos hreason
        rw [List.filterMap_cons_some hnotice, List.length_cons, ih,
          List.countP_cons_of_pos (by simpa using hreason)]
        rfl
      · have hnotice : (notice? label (.left note reason)) = none := if_neg hreason
        rw [List.filterMap_cons_none hnotice, ih,
          List.countP_cons_of_neg (by simpa using hreason)]
    | tried a =>
      have hattempt : attempt? (.tried a) = some a := rfl
      obtain ⟨text, hnotice⟩ : ∃ text, notice? label (.tried a) = some text := by
        obtain ⟨note, destination, e | _⟩ := a <;> exact ⟨_, rfl⟩
      rw [List.filterMap_cons_some hattempt, List.filterMap_cons_some hnotice, List.length_cons,
        List.length_cons, ih, List.map_cons, decision, Attempt.decision,
        List.countP_cons_of_neg (by simp)]
      omega

/-- The messages after a run are those of this run alone, whatever was told before, and they tell
what happened in it.  The first one is there if the system does not let the settings be saved.  With
a result, each candidate that was moved, that could not be moved, or that has no date has one
message, in the order of the paths, and a summary with the counts of the result follows if it is
wanted.  Without a result the last message says why.  It is the only one where half a character in
the settings is why they could not be saved. -/
theorem messages_tell_last_run (op : Operation) (v : Vault) (today : Option Date) (verbose : Bool)
    (around : Nat) (w w' : World) (result : Option Tally) (ht : w.disk.IsTree)
    (h : (op.run v today verbose around).runIn w = (.ok result, w')) :
    let day := Operation.day today (Operation.clockAt verbose w.clock)
    (∀ t, result = some t → ∃ s handled closing, op.Completed v around day w s handled t w' ∧
      (handled.map (·.decision.note.path)).Pairwise (· < ·) ∧
      w'.notices = Operation.saveNotices v around w ++
        handled.filterMap (Handling.notice? op.label) ++ closing ∧
      (op = .archive → closing =
        if s.showSummary then
          [s!"{t.found}件の{s.dateFormat}形式のノートを発見: 移動 {t.moved}件, " ++
            s!"スキップ {t.skipped}件 (移動先: {s.targetFolder})"]
        else []) ∧
      (op = .relocate → closing =
        [s!"{t.moved}件のノートを {Settings.legacyFolder} から {s.targetFolder} へ再配置しました"]) ∧
      (handled.filterMap (Handling.notice? op.label)).length = t.moved + t.failed +
        (handled.map Handling.decision).countP (fun d => d.verdict = .skip .unparseable)) ∧
    (result = none → ∃ e w₁, (op.work v day around).runIn w = (.error e, w₁) ∧
      w'.notices = Operation.saveNotices v around w ++ [op.abortNotice e]) ∧
    (∀ s, Operation.settingsIn v around w = .ok s →
      (v.CanSave w.disk → Operation.saveNotices v around w = []) ∧
      (¬ v.CanSave w.disk → ∃ e : Failure,
        Operation.saveNotices v around w = ["設定を保存できませんでした: " ++ e.message])) ∧
    ∀ loaded cut, (v.checkRoot.runIn w).1 = .ok () →
      v.settingsOn w.disk (around + 3) = .ok loaded →
      loaded.raw.validated.fileBytes? = .error cut →
      result = none ∧ w'.notices = [op.abortNotice (.notEncodable cut.error)] := by
  intro day
  refine ⟨?_, ?_, fun s hs => Operation.saveNotices_of_settingsIn ht hs,
    fun loaded cut hcheck hload hcut => ?_⟩
  · rintro t rfl
    obtain ⟨s, handled, hcompleted, hnotices⟩ := Operation.completed_of_run ht h
    refine ⟨s, handled, (op.summary s t).toList, hcompleted, ?_, hnotices, ?_, ?_, ?_⟩
    · have hpaths : handled.map (·.decision.note.path) =
          ((Operation.batch s day).candidates ((v.notesOn w.disk).filter op.concerns)).map
            (·.path) := by
        have hnotes := congrArg (List.map fun d : Decision => d.note.path) hcompleted.decided
        rw [Batch.plan, List.map_map, List.map_map] at hnotes
        exact hnotes
      rw [hpaths, List.pairwise_map]
      exact ((notesOn_pairwise ht v).filter _).filter _
    · rintro rfl
      rw [Operation.summary]
      split <;> rfl
    · rintro rfl
      rfl
    · obtain ⟨-, -, hmoved, hfailed, -⟩ := Tally.foldl_count handled {}
      have hended := Attempt.countP_add_length_errors (handled.filterMap Handling.attempt?)
      rw [← hcompleted.counted] at hmoved hfailed
      have hzero : ({} : Tally).moved = 0 ∧ ({} : Tally).failed = 0 := ⟨rfl, rfl⟩
      rw [Handling.length_filterMap_notice?]
      omega
  · rintro rfl
    obtain ⟨e, w₁, hwork, -, hnotices⟩ := Operation.aborted_of_run ht h
    exact ⟨e, w₁, hwork, hnotices⟩
  · exact Operation.aborted_of_cut ht (Vault.runIn_checkRoot_of_ok hcheck) hload hcut h

/-- A folder is where the settings file must be, and the note cannot be moved: of three messages the
first one is about the settings, and the last one is the summary. -/
theorem messages_tell_last_run_of_one_note :
    let v : Vault := ⟨⟨"/", ["v"]⟩, ["v"]⟩
    let w : World :=
      { World.ofDisk
          { entries := [(["v"], .folder), (["v", "05-03-2021.md"], .file [97]),
              (["v", ".daily_note_mover"], .folder),
              (["v", ".daily_note_mover", "data.json"], .folder)] }
          { move := [some ⟨.denied, "PermissionError", "no"⟩] } with
        notices := ["earlier"] }
    w.disk.IsTree ∧
      ∃ t w', (Operation.archive.run v (some ⟨2024, 1, 1⟩) false).runIn w = (.ok (some t), w') ∧
        w'.notices.length = 3 ∧
        ∃ s handled, Operation.archive.Completed v 0 ⟨2024, 1, 1⟩ w s handled t w' ∧
          s.showSummary = true ∧
          w'.notices = Operation.saveNotices v 0 w ++
            handled.filterMap (Handling.notice? Operation.archive.label) ++
            [s!"{t.found}件の{s.dateFormat}形式のノートを発見: 移動 {t.moved}件, " ++
              s!"スキップ {t.skipped}件 (移動先: {s.targetFolder})"] := by
  intro v w
  have ht : w.disk.IsTree := by decide
  have hlength : ((Operation.archive.run v (some ⟨2024, 1, 1⟩) false).runIn w).2.notices.length =
      3 := by decide +kernel
  have hsome : ((Operation.archive.run v (some ⟨2024, 1, 1⟩) false).runIn w).1.toOption.join.isSome
      = true := by decide +kernel
  have hsummary : (Operation.settingsIn v 0 w).toOption.map Settings.showSummary = some true := by
    decide +kernel
  rcases hrun : (Operation.archive.run v (some ⟨2024, 1, 1⟩) false).runIn w with
    ⟨e | _ | t, w'⟩ <;> rw [hrun] at hlength hsome
  · cases hsome
  · cases hsome
  · obtain ⟨s, handled, _, hcompleted, -, hnotices, hclosing, -⟩ :=
      (messages_tell_last_run .archive v (some ⟨2024, 1, 1⟩) false 0 w w' (some t) ht hrun).1 t rfl
    rw [hcompleted.settings] at hsummary
    have hshow : s.showSummary = true := Option.some.inj hsummary
    rw [hclosing rfl, if_pos hshow] at hnotices
    exact ⟨ht, t, w', rfl, hlength, s, handled, hcompleted, hshow, hnotices⟩

/-- Half a character at the end of the format in the settings file: the settings cannot be saved,
and the user is told only that the run ended. -/
theorem only_end_told_of_half_character :
    let v : Vault := ⟨⟨"/", ["v"]⟩, ["v"]⟩
    let w : World := .ofDisk
      { entries := [(["v"], .folder), (["v", ".daily_note_mover"], .folder),
          (["v", ".daily_note_mover", "data.json"], .file (Text.Utf8.encode
            ("\x7b\"target_folder\": \"Archive\", \"show_summary_notification\": false, " ++
              "\"date_format\": \"DD-MM-YYYY-\\ud800\"\x7d").toList)),
          (["v", "05-03-2021-.md"], .file [97])] }
    let archive := Operation.archive.run v (some ⟨2024, 1, 1⟩) false
    w.disk.IsTree ∧ w.Calm ∧
      (∃ loaded, v.settingsOn w.disk 3 = .ok loaded ∧
        ((v.saveSettings loaded.raw.validated).runIn w).1.toOption = none) ∧
      (archive.runIn w).1.toOption = some none ∧
      (archive.runIn w).2.notices =
        ["ノートの移動中にエラーが発生しました: 'utf-8' codec can't encode character '\\ud800' in " ++
          "position 12: surrogates not allowed"] := by
  intro v w archive
  have hread : (v.settingsOn w.disk 3).toOption.map Loaded.raw = some
      { targetFolder := Text.wide "Archive", showSummary := false,
        dateFormat := Text.wide "DD-MM-YYYY-" ++ [.half 0], useSubfolders := false } := by
    decide +kernel
  refine ⟨by decide, rfl, ?_, by decide +kernel, by decide +kernel⟩
  rcases hload : v.settingsOn w.disk 3 with e | loaded <;> rw [hload] at hread
  · cases hread
  · refine ⟨loaded, rfl, ?_⟩
    rw [Option.some.inj hread]
    decide +kernel

end NoteArchive
