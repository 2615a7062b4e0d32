import NoteArchive.Proofs.Archive.AbortNotice
import NoteArchive.Proofs.Archive.Told
import NoteArchive.Proofs.DateFormat.Checking
import NoteArchive.Proofs.Settings.Validation

/-!
# The format of a run

* `Event.IsFallback`: the warning that another format is used than the one that is asked for.
* `Operation.workWith`: the work of an operation with a given batch.
* `fallback_of_run`: a run tells this warning exactly when the format in its settings cannot be
  used.
* `workWith_of_run`: the files are matched with the format that is used, compiled.
-/

namespace NoteArchive

open Act DateFormat

/-- The event is the warning that another format is used than the one that is asked for. -/
def Event.IsFallback (e : Event) : Prop := ∃ shown, e = .record (replacedRecord shown)

theorem Event.IsRoutine.not_isFallback {e : Event} (h : e.IsRoutine) : ¬ e.IsFallback := by
  rintro ⟨shown, rfl⟩
  exact h rfl

/-! ## What is said of a format -/

namespace DateFormat

theorem resolveLog_of_isValid {format : Text.Wide} (h : isValid (Text.stand format) = true) :
    resolveLog format = [] := by
  rw [resolveLog, if_pos h]

theorem replacedRecord_mem_resolveLog {format : Text.Wide}
    (h : ¬ isValid (Text.stand format) = true) :
    replacedRecord (Text.quoted format) ∈ resolveLog format := by
  rw [resolveLog, if_neg h]
  exact List.mem_singleton_self _

/-- The warning about a part that is ignored is another one. -/
theorem ignoredRecord_ne_replacedRecord (part shown : String) :
    ignoredRecord part ≠ replacedRecord shown := by
  have hignored : "認識できない部分を無視: ".toList.head? = some '認' := by decide +kernel
  have hreplaced : "無効な日付フォーマット: ".toList.head? = some '無' := by decide +kernel
  intro h
  have htext : Text.wide ("認識できない部分を無視: " ++ part) =
      Text.wide "無効な日付フォーマット: " ++ Text.wide shown ++ Text.wide "、" ++ Text.wide usual ++
        Text.wide " を使用します" := congrArg Record.text h
  simp only [← Text.wide_append] at htext
  refine Operation.append_ne_append hignored hreplaced (by decide) part
    (shown ++ ("、" ++ usual ++ " を使用します")) ?_
  rw [← String.append_assoc, ← String.append_assoc, ← String.append_assoc]
  exact Text.wide_inj.1 htext

/-- While a format is compiled no other format is put in its place. -/
theorem ne_replacedRecord_of_mem_compileLog {format shown : String} {r : Record}
    (h : r ∈ compileLog format) : r ≠ replacedRecord shown := by
  rintro rfl
  cases hmixed : hasMixedSeparators format.toList with
  | true => simp [compileLog, compile?, hmixed] at h
  | false =>
    have hwarning : replacedRecord shown ∈ warnings format := List.mem_filter.2 ⟨h, rfl⟩
    rw [warnings_eq hmixed] at hwarning
    obtain ⟨part, -, hpart⟩ := List.mem_map.1 hwarning
    exact ignoredRecord_ne_replacedRecord part shown hpart

end DateFormat

/-! ## What is said of settings -/

namespace Settings

theorem source_of_mem_ofFieldsLog {fields : List (Text.Wide × Json)} {r : Record}
    (h : r ∈ Raw.ofFieldsLog fields) : r.source = some "config" := by
  have htext : ∀ name, r ∈ textFieldLog name fields → r.source = some "config" := by
    intro name hr
    rw [textFieldLog] at hr
    split at hr
    · cases hr
    · cases hr
    · obtain rfl := List.mem_singleton.1 hr
      rfl
  have hswitch : ∀ name, r ∈ switchFieldLog name fields → r.source = some "config" := by
    intro name hr
    rw [switchFieldLog] at hr
    split at hr
    · cases hr
    · cases hr
    · obtain rfl := List.mem_singleton.1 hr
      rfl
  simp only [Raw.ofFieldsLog, List.mem_append] at h
  rcases h with ((h | h) | h) | h
  · exact htext _ h
  · exact hswitch _ h
  · exact htext _ h
  · exact hswitch _ h

theorem source_of_mem_ofBytes {path : String} {bytes : List UInt8} {around : Nat} {loaded : Loaded}
    (h : ofBytes path bytes around = .ok loaded) {r : Record} (hr : r ∈ loaded.log) :
    r.source = some "config" := by
  rw [ofBytes] at h
  split at h
  · rw [ofText] at h
    split at h
    · cases h
      rcases List.mem_append.1 hr with hr | hr
      · exact source_of_mem_ofFieldsLog hr
      · obtain rfl := List.mem_singleton.1 hr
        rfl
    · cases h
      obtain rfl := List.mem_singleton.1 hr
      rfl
    · split at h
      · cases h
      · cases h
        obtain rfl := List.mem_singleton.1 hr
        rfl
  · cases h

theorem source_of_mem_resolveTargetLog {folder : Text.Wide} {r : Record}
    (h : r ∈ Raw.resolveTargetLog folder) : r.source = some "config" := by
  rw [Raw.resolveTargetLog] at h
  split at h
  · cases h
  · obtain rfl := List.mem_singleton.1 h
    rfl

end Settings

theorem Vault.source_of_mem_settingsOn {v : Vault} {d : Disk} {around : Nat} {loaded : Loaded}
    (h : v.settingsOn d around = .ok loaded) {r : Record} (hr : r ∈ loaded.log) :
    r.source = some "config" := by
  rw [settingsOn] at h
  obtain ⟨there, -, h⟩ := bind_eq_ok h
  split at h
  · split at h
    · exact Settings.source_of_mem_ofBytes h hr
    · cases h
      obtain rfl := List.mem_singleton.1 hr
      rfl
  · cases h
    obtain rfl := List.mem_singleton.1 hr
    rfl

/-- What is said of settings has the warning exactly when their format cannot be used. -/
theorem exists_isFallback_iff {v : Vault} {d : Disk} {around : Nat} {loaded : Loaded}
    (h : v.settingsOn d around = .ok loaded) :
    (∃ e ∈ Vault.loadEvents loaded, e.IsFallback) ↔ ¬ Usable loaded.settings.dateFormat := by
  have hformat : loaded.settings.dateFormat = Text.stand loaded.raw.dateFormat := rfl
  rw [← isValid_iff_usable, hformat]
  constructor
  · rintro ⟨e, he, shown, rfl⟩ hvalid
    obtain ⟨r, hr, heq⟩ := List.mem_map.1 he
    obtain rfl : r = replacedRecord shown := Event.record.inj heq
    have hsource : ¬ (replacedRecord shown).source = some "config" := by
      show ¬ some "date_format" = some "config"
      decide
    rcases List.mem_append.1 hr with hr | hr
    · exact hsource (Vault.source_of_mem_settingsOn h hr)
    · rw [Settings.Raw.validatedLog, resolveLog_of_isValid hvalid, List.append_nil] at hr
      exact hsource (Settings.source_of_mem_resolveTargetLog hr)
  · intro hno
    have hlog : replacedRecord (Text.quoted loaded.raw.dateFormat) ∈
        loaded.log ++ loaded.raw.validatedLog :=
      List.mem_append_right _ (List.mem_append_right _ (replacedRecord_mem_resolveLog hno))
    exact ⟨_, List.mem_map_of_mem hlog, _, rfl⟩

namespace Operation

/-! ## Runs -/

variable {op : Operation} {v : Vault}

theorem IsWork.not_isFallback {format : String} {e : Event} (h : IsWork (resolve format) e) :
    ¬ e.IsFallback := by
  rcases h with h | ⟨r, hr, rfl⟩
  · exact h.not_isFallback
  · rintro ⟨shown, heq⟩
    have hvalid : isValid (Text.stand (Text.wide (resolve format))) = true := by
      rw [Text.stand_wide]
      exact isValid_resolve format
    rw [compileResolvedLog, resolveLog_of_isValid hvalid, List.nil_append] at hr
    exact ne_replacedRecord_of_mem_compileLog hr (Event.record.inj heq)

theorem not_isFallback_of_mem_endingEvents {result : Except Failure Tally} {e : Event}
    (h : e ∈ op.endingEvents v result) : ¬ e.IsFallback := by
  cases result with
  | ok t => cases h
  | error e' =>
    rcases List.mem_cons.1 h with rfl | h
    · rintro ⟨_, heq⟩
      cases heq
    · obtain rfl := List.mem_singleton.1 h
      rintro ⟨_, heq⟩
      cases heq

/-- A run warns that another format is used exactly when the format in its settings cannot be
used. -/
theorem fallback_of_run {today : Option Date} {verbose : Bool} {around : Nat} {w w' : World}
    {r : Option Tally} {loaded : Loaded} (hroot : (v.checkRoot.runIn w).1 = .ok ())
    (hload : v.settingsOn w.disk (around + 3) = .ok loaded)
    (h : (op.run v today verbose around).runIn w = (.ok r, w')) :
    ∃ events, w'.events = w.events ++ events ∧
      ((∃ e ∈ events, e.IsFallback) ↔ ¬ Usable loaded.settings.dateFormat) := by
  rcases told_run h with ⟨⟨e, he⟩, -⟩ | ⟨setup, w₁, result, w₂, -, ha, hopened, hbody, -, hevents⟩
  · cases he
  · rcases told_body hbody with ⟨⟨e, he | he⟩, -⟩ | ⟨loaded', hload', told, htold, hwork⟩
    · rw [(v.agrees_checkRoot w w₁ ha).1, hroot] at he
      cases he
    · rw [ha.disk, hload] at he
      cases he
    · rw [ha.disk, hload] at hload'
      obtain rfl := Except.ok.inj hload'
      refine ⟨.opened setup :: (Vault.loadEvents loaded ++ (told ++ op.endingEvents v result)),
        ?_, ?_⟩
      · rw [hevents, htold, World.heard, hopened]
        simp [List.append_assoc]
      · -- only what is said of the settings can have it
        rw [← exists_isFallback_iff hload]
        constructor
        · rintro ⟨e, he, hfallback⟩
          simp only [List.mem_cons, List.mem_append] at he
          rcases he with rfl | he | he | he
          · obtain ⟨_, heq⟩ := hfallback
            cases heq
          · exact ⟨e, he, hfallback⟩
          · have hnot := hwork e he
            rw [Settings.dateFormat_validated] at hnot
            exact absurd hfallback hnot.not_isFallback
          · exact absurd hfallback (not_isFallback_of_mem_endingEvents he)
        · rintro ⟨e, he, hfallback⟩
          exact ⟨e, List.mem_cons_of_mem _ (List.mem_append_left _ he), hfallback⟩

/-- The work of an operation with a given batch. -/
def workWith (op : Operation) (v : Vault) (b : Batch) (around : Nat) : Act Tally := do
  v.checkRoot
  let _ ← v.settleSettings (around + 2)
  let notes ← v.notes
  b.run v op.label (notes.filter op.concerns)

/-- A run comes to the work with the batch of its settings. -/
theorem workWith_of_run {today : Option Date} {verbose : Bool} {around : Nat} {w w' : World}
    {r : Option Tally} {loaded : Loaded} (ht : w.disk.IsTree)
    (hroot : (v.checkRoot.runIn w).1 = .ok ())
    (hload : v.settingsOn w.disk (around + 3) = .ok loaded)
    (h : (op.run v today verbose around).runIn w = (.ok r, w')) :
    ∃ result w₁, (op.workWith v (batch loaded.settings.validated
        (day today (clockAt verbose w.clock))) around).runIn w = (result, w₁) ∧
      r = result.toOption ∧ w₁.Agrees w' := by
  rcases of_run ht h with ⟨e, -, he⟩ | ⟨-, -, result, w₁, -, hwork, hr, ha⟩
  · cases he
  · refine ⟨result, w₁, ?_, Except.ok.inj hr, ha⟩
    have hcheck := Vault.runIn_checkRoot_of_ok hroot
    rw [work, runIn_bind_of_ok hcheck] at hwork
    rw [workWith, runIn_bind_of_ok hcheck]
    rcases hsettle : (v.settleSettings (around + 2)).runIn w with ⟨e | s, w₂⟩
    · rw [runIn_bind_of_error hsettle] at hwork ⊢
      exact hwork
    · rcases told_settleSettings hsettle with ⟨_, -, hs, -⟩ | ⟨loaded', hload', hs, -⟩
      · cases hs
      · rw [hload] at hload'
        obtain rfl := Except.ok.inj hload'
        obtain rfl := hs s rfl
        rw [runIn_bind_of_ok hsettle] at hwork ⊢
        exact hwork

/-- The format of that batch. -/
theorem format_batch (s : Settings) (day : Date) :
    (batch s.validated day).format = .ofParts (resolve s.dateFormat) := by
  show compileResolved s.validated.dateFormat = _
  rw [Settings.dateFormat_validated, compileResolved, Settings.resolve_resolve]

end Operation

end NoteArchive
