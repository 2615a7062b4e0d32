import NoteArchive.Archive.Operation
import NoteArchive.Proofs.Archive.Candidates
import NoteArchive.Proofs.Archive.Progress
import NoteArchive.Proofs.Settings.Reload
import NoteArchive.Proofs.Vault.Silence

/-!
# The parts of an operation

* `Operation.batch`, `Operation.day`: the batch that is run, and its day.
* `Operation.work`: the work of an operation without what it tells.  `of_run`: a run comes to it.
* `Operation.settingsIn`: the settings that an operation uses, if it comes so far.
  `settingsIn_cases`: its work from them on.
* `Operation.Outcome`: what the work of an operation can come to: it ends before the settings are
  read, before the files are listed, or with its batch.
* `work_cases`, `run_cases`: whatever fails from outside, it comes to one of these.
-/

namespace NoteArchive

open Act Vault

variable {v : Vault}

/-! ## Around the batch -/

/-- The check of a vault only looks. -/
theorem Vault.runIn_checkRoot_snd (v : Vault) (w : World) : (v.checkRoot.runIn w).2 = w := by
  rw [checkRoot, runIn_get_bind, runIn_ofExcept_bind]
  split
  · next there _ =>
    cases there with
    | false => rfl
    | true =>
      simp only [if_true]
      rw [runIn_ofExcept_bind]
      split
      · next folder _ => cases folder <;> cases w.permitted <;> rfl
      · rfl
  · rfl

/-- The check of a vault fails, or it ends well. -/
theorem Vault.runIn_checkRoot_cases (v : Vault) (w : World) :
    (∃ e, v.checkRoot.runIn w = (.error e, w)) ∨ v.checkRoot.runIn w = (.ok (), w) := by
  have hstill := v.runIn_checkRoot_snd w
  rcases hcheck : v.checkRoot.runIn w with ⟨e | _, w₁⟩ <;> rw [hcheck] at hstill <;>
    obtain rfl : w₁ = w := hstill
  · exact Or.inl ⟨e, rfl⟩
  · exact Or.inr rfl

theorem Vault.runIn_checkRoot_of_ok {w : World} (h : (v.checkRoot.runIn w).1 = .ok ()) :
    v.checkRoot.runIn w = (.ok (), w) :=
  Prod.ext h (v.runIn_checkRoot_snd w)

/-- A vault that passes the check is a folder. -/
theorem Vault.of_checkRoot {w w' : World} (ht : w.disk.IsTree) {r : Except Failure Unit}
    (h : v.checkRoot.runIn w = (r, w')) :
    w' = w ∧ (r = .ok () → (v.spot []).Accepted w.disk ∧ w.disk.get? v.place = some .folder) := by
  rw [checkRoot, runIn_get_bind, runIn_ofExcept_bind] at h
  rcases hthere : (v.spot []).isThere w.disk with e | _ | _ <;> rw [hthere] at h
  · cases h
    exact ⟨rfl, fun hr => by cases hr⟩
  · cases h
    exact ⟨rfl, fun hr => by cases hr⟩
  · simp only [if_true] at h
    rw [runIn_ofExcept_bind] at h
    rcases hfolder : (v.spot []).isFolder w.disk with e | _ | _ <;> rw [hfolder] at h
    · cases h
      exact ⟨rfl, fun hr => by cases hr⟩
    · cases h
      exact ⟨rfl, fun hr => by cases hr⟩
    · obtain ⟨hacc, hget⟩ := (Spot.isFolder_eq_true_iff ht).1 hfolder
      have hplace : (v.spot []).place = v.place := List.append_nil _
      rw [hplace] at hget
      cases hp : w.permitted <;> rw [hp] at h <;> cases h
      · exact ⟨rfl, fun hr => by cases hr⟩
      · exact ⟨rfl, fun _ => ⟨hacc, hget⟩⟩

namespace Operation

variable {op : Operation}

theorem like_appendLog {name : String} {more : List UInt8} {w w' : World}
    {r : Except Failure Unit} (h : (appendLog name more).runIn w = (r, w')) : w.Like w' := by
  rw [appendLog, runIn_get_bind] at h
  rcases hmake : w.home.makeFolders (logPlace w []) with refusal | home <;> rw [hmake] at h
  · cases h
    exact ⟨⟨rfl, rfl, rfl⟩, rfl⟩
  · dsimp only at h
    rw [runIn_set_bind] at h
    split at h <;> cases h <;> exact ⟨⟨rfl, rfl, rfl⟩, rfl⟩

/-- The clock when the work of an operation begins. -/
def clockAt (verbose : Bool) (c : Clock) : Clock := if verbose then c.advance else c

theorem of_openLog {verbose : Bool} {w w' : World} {r : Except Failure LogSetup}
    (h : (openLog verbose).runIn w = (r, w')) :
    World.Like { w with clock := clockAt verbose w.clock } w' := by
  rw [openLog] at h
  cases verbose with
  | false =>
    cases h
    exact ⟨⟨rfl, rfl, rfl⟩, rfl⟩
  | true =>
    have hclock : readClock.runIn w =
        (.ok w.clock.now, { w with clock := clockAt true w.clock }) := rfl
    rw [if_pos rfl, runIn_bind_of_ok hclock] at h
    rcases runIn_bind_cases h with ⟨_, w₁, happend, h⟩ | ⟨e, happend, he⟩
    · cases h
      exact (like_appendLog happend).heard _
    · exact like_appendLog happend

theorem runIn_closeLog (setup : LogSetup) (start : Nat) (w : World) :
    ∃ w', (closeLog setup start).runIn w = (.ok (), w') ∧ w.Like w' := by
  rw [closeLog]
  split
  · exact ⟨w, rfl, .refl w⟩
  · next name _ =>
    rw [runIn_get_bind]
    dsimp only
    generalize Logging.fileBytes _ _ _ = content
    rcases happend : (appendLog name content).runIn w with ⟨r₁, w₁⟩
    have hatt : (Act.attempt (appendLog name content)).runIn w = (.ok r₁, w₁) := by
      rw [runIn_attempt, happend]
    rw [runIn_bind_of_ok hatt]
    exact ⟨w₁, rfl, like_appendLog happend⟩

theorem silent_appendLog (name : String) (more : List UInt8) : Silent (appendLog name more) := by
  refine silent_get_bind fun w => ?_
  split
  · rfl
  · dsimp only
    rw [runIn_set_bind]
    split <;> rfl

theorem silent_openLog (verbose : Bool) : Silent (openLog verbose) :=
  silent_ite
    (silent_readClock.bind fun _ => (silent_appendLog _ _).bind fun _ =>
      (silent_tell _).bind fun _ => silent_pure _)
    ((silent_tell _).bind fun _ => silent_pure _)

theorem silent_closeLog (setup : LogSetup) (start : Nat) : Silent (closeLog setup start) := by
  rw [closeLog]
  split
  · exact silent_pure ()
  · refine silent_get.bind fun w => Silent.bind ?_ fun _ => silent_pure ()
    exact (silent_appendLog _ _).attempt

/-- What the user is told of a run that ended without a result. -/
def abortNotice (op : Operation) (e : Failure) : String :=
  "ノートの" ++ op.label ++ "中にエラーが発生しました: " ++ e.message

/-- What the user is told at the end of a run, after the work. -/
def ending (op : Operation) : Except Failure Tally → List String
  | .ok _ => []
  | .error e => [op.abortNotice e]

theorem runIn_settle (op : Operation) (v : Vault) (result : Except Failure Tally) (w : World) :
    ∃ w', (op.settle v result).runIn w = (.ok result.toOption, w') ∧ w.Like w' ∧
      w'.notices = w.notices ++ op.ending result := by
  cases result with
  | ok t => exact ⟨w, rfl, .refl w, (List.append_nil _).symm⟩
  | error e => exact ⟨_, rfl, ⟨⟨rfl, rfl, rfl⟩, rfl⟩, rfl⟩

/-! ## The work -/

/-- The batch of an operation with settings that can be used. -/
def batch (s : Settings) (day : Date) : Batch := ⟨s, DateFormat.compileResolved s.dateFormat, day⟩

/-- The day of the batch of an operation, where the clock is read once more before. -/
def day (today : Option Date) (c : Clock) : Date := today.getD c.advance.today

/-- What the work of an operation on a disk can come to.  Without failures from outside its batch is
run without them too. -/
inductive Outcome (op : Operation) (v : Vault) (around : Nat) (day : Date) (calm : Prop)
    (d : Disk) : Except Failure Tally → Disk → Prop where
  | unread {e : Failure} : Outcome op v around day calm d (.error e) d
  | unlisted {e : Failure} {content : List UInt8} (hroot : d.get? v.place = some .folder) :
      Outcome op v around day calm d (.error e) (v.savedOn d content)
  | ran {loaded : Loaded} {w w' : World} {r : Except Failure Tally}
      (hroot : d.get? v.place = some .folder) (hacc : (v.spot []).Accepted d)
      (hload : v.settingsOn d (around + 3) = .ok loaded)
      (hdisk : w.disk = v.savedOn d loaded.settings.validated.fileBytes)
      (hcalm : calm → w.Calm)
      (hrun : ((batch loaded.settings.validated day).run v op.label
        ((v.notesOn w.disk).filter op.concerns)).runIn w = (r, w')) :
      Outcome op v around day calm d r w'.disk

/-- The work of an operation on a day, without what it tells. -/
def work (op : Operation) (v : Vault) (day : Date) (around : Nat) : Act Tally := do
  v.checkRoot
  let s ← v.settleSettings (around + 2)
  let notes ← v.notes
  (batch s day).run v op.label (notes.filter op.concerns)

theorem agrees_work (op : Operation) (v : Vault) (day : Date) (around : Nat) :
    Agrees (op.work v day around) (op.work v day around) :=
  v.agrees_checkRoot.bind fun _ => (v.agrees_settleSettings _).bind fun _ =>
    v.agrees_notes.bind fun _ => Batch.agrees_run v _ _ rfl

/-- The settings of a vault as an operation uses them, if it comes so far. -/
def settingsIn (v : Vault) (around : Nat) (w : World) : Except Failure Settings :=
  ((v.checkRoot >>= fun _ => v.settleSettings (around + 2)).runIn w).1

theorem settingsIn_of_checkRoot {around : Nat} {w : World} {e : Failure}
    (hcheck : v.checkRoot.runIn w = (.error e, w)) : settingsIn v around w = .error e := by
  rw [settingsIn, runIn_bind_of_error hcheck]

theorem settingsIn_of_settleSettings {around : Nat} {w w₁ : World} {r : Except Failure Settings}
    (hcheck : v.checkRoot.runIn w = (.ok (), w))
    (hsettle : (v.settleSettings (around + 2)).runIn w = (r, w₁)) :
    settingsIn v around w = r := by
  rw [settingsIn, runIn_bind_of_ok hcheck, hsettle]

/-- The work of an operation from its list of files on. -/
def afterListing (op : Operation) (v : Vault) (today : Option Date) (s : Settings)
    (notes : List Note) : Act Tally := do
  tellProgress (.informed s!"ファイルをスキャン: {(notes.filter op.concerns).length}個")
  let w ← get
  let t ← (batch s (today.getD w.clock.today)).run v op.label (notes.filter op.concerns)
  tellProgress (.completed op.name (← readClock) t.report)
  match op.summary s t with
  | none => return t
  | some text =>
    notify text
    return t

/-- The work of an operation from its settings on. -/
def afterSettings (op : Operation) (v : Vault) (today : Option Date) (s : Settings) :
    Act Tally := do
  tellProgress (.started op.name (← readClock) v.text s)
  tellAll (DateFormat.compileResolvedLog s.dateFormat)
  tellProgress (.noted ("正規表現: " ++ (DateFormat.compileResolved s.dateFormat).pattern))
  let notes ← v.notes
  op.afterListing v today s notes

/-- The settings of an operation are known, and were written back as far as this could be done. -/
structure Settled (v : Vault) (around : Nat) (w : World) (s : Settings) (w₁ : World) : Prop where
  settings : settingsIn v around w = .ok s
  notices : w₁.notices = w.notices ++ v.saveNotices s w
  saved : w.disk.IsTree → w.disk.get? v.place = some .folder ∧
    World.Like { w with disk := v.savedOn w.disk s.fileBytes } w₁
  work : ∀ op day, (work op v day around).runIn w =
    (v.notes >>= fun notes => (batch s day).run v op.label (notes.filter op.concerns)).runIn w₁
  body : ∀ op today, (body op v today around).runIn w = (afterSettings op v today s).runIn w₁

/-- Without settings an operation comes to nothing, and the disk is as it was, unless a text of the
settings cannot be encoded: their file ends before it then. -/
structure Unsettled (v : Vault) (around : Nat) (w : World) (e : Failure) (w₁ : World) : Prop where
  settings : settingsIn v around w = .error e
  notices : w₁.notices = w.notices
  saved : w.disk.IsTree → w₁ = w ∨ (w.disk.get? v.place = some .folder ∧
    ∃ loaded cut, v.settingsOn w.disk (around + 3) = .ok loaded ∧
      loaded.raw.validated.fileBytes? = .error cut ∧ e = .notEncodable cut.error ∧
      World.Like { w with disk := v.savedOn w.disk cut.written } w₁)
  work : ∀ op day, (work op v day around).runIn w = (.error e, w₁)
  body : ∀ op today, (body op v today around).runIn w = (.error e, w₁)

theorem unsettled_of_checkRoot {around : Nat} {w : World} {e : Failure}
    (hcheck : v.checkRoot.runIn w = (.error e, w)) : Unsettled v around w e w where
  settings := settingsIn_of_checkRoot hcheck
  notices := rfl
  saved _ := Or.inl rfl
  work _ _ := runIn_bind_of_error hcheck _
  body _ _ := runIn_bind_of_error hcheck _

theorem unsettled_of_settleSettings {around : Nat} {w w₁ : World} {e : Failure}
    (hcheck : v.checkRoot.runIn w = (.ok (), w))
    (hsettle : (v.settleSettings (around + 2)).runIn w = (.error e, w₁)) :
    Unsettled v around w e w₁ where
  settings := settingsIn_of_settleSettings hcheck hsettle
  notices := (notices_of_settleSettings hsettle).trans (List.append_nil _)
  saved ht := by
    obtain ⟨-, hroot⟩ := (of_checkRoot ht hcheck).2 rfl
    rcases runIn_settleSettings ht hroot (around + 2) with
      ⟨_, -, hrun⟩ | ⟨_, _, -, hrun, -⟩ | ⟨loaded, cut, w₂, hload, hcut, hrun, hlike⟩ <;>
      rw [hsettle] at hrun <;> cases hrun
    · exact Or.inl rfl
    · exact Or.inr ⟨hroot, loaded, cut, hload, hcut, rfl, hlike⟩
  work op day := by
    rw [Operation.work, runIn_bind_of_ok hcheck, runIn_bind_of_error hsettle]
  body op today := by
    rw [Operation.body, runIn_bind_of_ok hcheck, runIn_bind_of_error hsettle]

theorem settled_of_settleSettings {around : Nat} {w w₁ : World} {s : Settings}
    (hcheck : v.checkRoot.runIn w = (.ok (), w))
    (hsettle : (v.settleSettings (around + 2)).runIn w = (.ok s, w₁)) :
    Settled v around w s w₁ where
  settings := settingsIn_of_settleSettings hcheck hsettle
  notices := notices_of_settleSettings hsettle
  saved ht := by
    obtain ⟨-, hroot⟩ := (of_checkRoot ht hcheck).2 rfl
    rcases runIn_settleSettings ht hroot (around + 2) with
      ⟨_, -, hrun⟩ | ⟨loaded, w₂, -, hrun, hlike⟩ | ⟨_, _, _, -, -, hrun, -⟩ <;>
      rw [hsettle] at hrun
    · cases hrun
    · obtain ⟨hs, rfl⟩ := Prod.mk.inj hrun
      rw [Except.ok.inj hs]
      exact ⟨hroot, hlike⟩
    · cases hrun
  work op day := by
    rw [Operation.work, runIn_bind_of_ok hcheck, runIn_bind_of_ok hsettle]
  body op today := by
    rw [Operation.body, runIn_bind_of_ok hcheck, runIn_bind_of_ok hsettle]
    rfl

/-- An operation goes on from its settings, or it has none. -/
theorem settingsIn_cases (v : Vault) (around : Nat) (w : World) :
    (∃ e w₁, Unsettled v around w e w₁) ∨ ∃ s w₁, Settled v around w s w₁ := by
  rcases v.runIn_checkRoot_cases w with ⟨e, hcheck⟩ | hcheck
  · exact Or.inl ⟨e, w, unsettled_of_checkRoot hcheck⟩
  · rcases hsettle : (v.settleSettings (around + 2)).runIn w with ⟨e | s, w₂⟩
    · exact Or.inl ⟨e, w₂, unsettled_of_settleSettings hcheck hsettle⟩
    · exact Or.inr ⟨s, w₂, settled_of_settleSettings hcheck hsettle⟩

/-- Where the vault cannot be used or its settings cannot be read, nothing is done. -/
theorem unsettled_of_unread {around : Nat} {w : World}
    (h : ∃ e, (v.checkRoot.runIn w).1 = .error e ∨ v.settingsOn w.disk (around + 3) = .error e) :
    ∃ e, Unsettled v around w e w := by
  rcases v.runIn_checkRoot_cases w with ⟨e', hcheck⟩ | hcheck
  · exact ⟨e', unsettled_of_checkRoot hcheck⟩
  · obtain ⟨e, he | hload⟩ := h
    · rw [hcheck] at he
      cases he
    · rcases hsettle : (v.settleSettings (around + 2)).runIn w with ⟨r, w₂⟩
      rcases settleSettings_cases hsettle with ⟨e', -, rfl, rfl⟩ | ⟨_, _, _, hok, -⟩
      · exact ⟨e', unsettled_of_settleSettings hcheck hsettle⟩
      · rw [hload] at hok
        cases hok

/-- Where half a character is in the settings that were read, there are none to be used. -/
theorem unsettled_of_cut {around : Nat} {w : World} {loaded : Loaded} {cut : Json.Cut}
    (ht : w.disk.IsTree) (hcheck : v.checkRoot.runIn w = (.ok (), w))
    (hload : v.settingsOn w.disk (around + 3) = .ok loaded)
    (hcut : loaded.raw.validated.fileBytes? = .error cut) :
    ∃ w₁, Unsettled v around w (.notEncodable cut.error) w₁ ∧
      World.Like { w with disk := v.savedOn w.disk cut.written } w₁ := by
  obtain ⟨hacc, hroot⟩ := (of_checkRoot ht hcheck).2 rfl
  obtain ⟨w₁, hsettle, hlike⟩ := runIn_settleSettings_of_cut ht hroot
    (hasNull_text_of_accepted hacc) hload hcut
  exact ⟨w₁, unsettled_of_settleSettings hcheck hsettle, hlike⟩

theorem settingsIn_of_plain {around : Nat} {w : World} {loaded : Loaded} {s : Settings}
    (hcheck : v.checkRoot.runIn w = (.ok (), w))
    (hload : v.settingsOn w.disk (around + 3) = .ok loaded) (hs : loaded.raw.validated = s) :
    settingsIn v around w = .ok s := by
  obtain ⟨w₁, hsettle⟩ := settleSettings_of_plain hload hs
  exact settingsIn_of_settleSettings hcheck hsettle

/-- What the user is told at the end of the work. -/
def closing (op : Operation) (s : Settings) : Except Failure Tally → List String
  | .ok t => (op.summary s t).toList
  | .error _ => []

/-- Apart from the batch something is only told then. -/
theorem of_afterListing {today : Option Date} {s : Settings} {notes : List Note}
    {w w' : World} {r : Except Failure Tally}
    (h : (op.afterListing v today s notes).runIn w = (r, w')) :
    ∃ w₁ w₂, w.Agrees w₁ ∧ w₁.notices = w.notices ∧
      ((batch s (today.getD w.clock.today)).run v op.label (notes.filter op.concerns)).runIn w₁ =
        (r, w₂) ∧
      w₂.Agrees w' ∧ w'.notices = w₂.notices ++ op.closing s r := by
  rw [afterListing, tellProgress, runIn_tell_bind, runIn_get_bind] at h
  generalize hw₁ : World.heard _ _ = w₁ at h
  have hagrees : w.Agrees w₁ := by
    rw [← hw₁]
    exact ⟨rfl, rfl, rfl⟩
  have hquiet : w₁.notices = w.notices ∧ w₁.clock = w.clock := by
    rw [← hw₁]
    exact ⟨rfl, rfl⟩
  rw [hquiet.2] at h
  refine ⟨w₁, ?_⟩
  rcases runIn_bind_cases h with ⟨t, w₂, hrun, h⟩ | ⟨e, hrun, rfl⟩
  · refine ⟨w₂, hagrees, hquiet.1, ?_⟩
    have hclock : readClock.runIn w₂ =
        (.ok w₂.clock.now, { w₂ with clock := w₂.clock.advance }) := rfl
    rw [runIn_bind_of_ok hclock, tellProgress, runIn_tell_bind] at h
    -- only the message at the end is told then
    split at h
    · next hsummary =>
      cases h
      rw [closing, hsummary]
      exact ⟨hrun, ⟨rfl, rfl, rfl⟩, (List.append_nil _).symm⟩
    · next text hsummary =>
      cases h
      rw [closing, hsummary]
      exact ⟨hrun, ⟨rfl, rfl, rfl⟩, rfl⟩
  · exact ⟨w', hagrees, hquiet.1, hrun, .refl w', (List.append_nil _).symm⟩

/-- From its settings on, an operation lists the files and runs its batch. -/
theorem of_afterSettings {today : Option Date} {s : Settings} {w w' : World}
    {r : Except Failure Tally} (h : (op.afterSettings v today s).runIn w = (r, w')) :
    ∃ w₀, w.Agrees w₀ ∧ w₀.notices = w.notices ∧
      ((∃ e, v.notes.runIn w₀ = (.error e, w') ∧ r = .error e) ∨
        ∃ notes w₁ w₂ w₃, v.notes.runIn w₀ = (.ok notes, w₁) ∧ w₁.Agrees w₂ ∧
          w₂.notices = w₁.notices ∧
          ((batch s (day today w.clock)).run v op.label (notes.filter op.concerns)).runIn w₂ =
            (r, w₃) ∧
          w₃.Agrees w' ∧ w'.notices = w₃.notices ++ op.closing s r) := by
  have hclock : readClock.runIn w = (.ok w.clock.now, { w with clock := w.clock.advance }) := rfl
  rw [afterSettings, runIn_bind_of_ok hclock, tellProgress, runIn_tell_bind, runIn_tellAll_bind,
    tellProgress, runIn_tell_bind] at h
  -- since the settings were known only the clock went on, and something was told
  generalize hw₀ : World.heard _ _ = w₀ at h
  have hlater : w.Agrees w₀ ∧ w₀.notices = w.notices ∧ w₀.clock = w.clock.advance := by
    rw [← hw₀]
    exact ⟨⟨rfl, rfl, rfl⟩, rfl, rfl⟩
  refine ⟨w₀, hlater.1, hlater.2.1, ?_⟩
  rcases runIn_bind_cases h with ⟨notes, w₁, hnotes, h⟩ | ⟨e, hnotes, rfl⟩
  · obtain ⟨w₂, w₃, ha₂, hquiet, hrun, ha', hclosing⟩ := of_afterListing h
    rw [(of_notes hnotes).2.1, hlater.2.2] at hrun
    exact Or.inr ⟨notes, w₁, w₂, w₃, hnotes, ha₂, hquiet, hrun, ha', hclosing⟩
  · exact Or.inl ⟨e, hnotes, rfl⟩

/-- An operation comes to its work: what it tells makes no difference. -/
theorem of_body {today : Option Date} {around : Nat} {w w' : World} (ht : w.disk.IsTree)
    {r : Except Failure Tally} (h : (op.body v today around).runIn w = (r, w')) :
    ∃ w₁, (op.work v (day today w.clock) around).runIn w = (r, w₁) ∧ w₁.Agrees w' := by
  rcases settingsIn_cases v around w with ⟨e, w₁, hset⟩ | ⟨s, w₁, hset⟩
  · rw [hset.body] at h
    rw [hset.work]
    cases h
    exact ⟨w', rfl, .refl w'⟩
  · have hclock : w₁.clock = w.clock := (hset.saved ht).2.clock
    rw [hset.body] at h
    rw [hset.work]
    obtain ⟨w₀, ha₀, -, ⟨e, hnotes, rfl⟩ | ⟨notes, w₂, w₃, w₄, hnotes, ha₃, -, hrun, ha', -⟩⟩ :=
      of_afterSettings h
    · obtain ⟨w₂, hnotes, ha₂⟩ := v.agrees_notes.of_runIn ha₀.symm hnotes
      rw [runIn_bind_of_error hnotes]
      exact ⟨w₂, rfl, ha₂.symm⟩
    · obtain ⟨w₅, hnotes, ha₅⟩ := v.agrees_notes.of_runIn ha₀.symm hnotes
      rw [hclock] at hrun
      obtain ⟨w₆, hrun, ha₆⟩ :=
        (Batch.agrees_run v _ op.label rfl).of_runIn (ha₃.symm.trans ha₅) hrun
      rw [runIn_bind_of_ok hnotes]
      exact ⟨w₆, hrun, ha₆.symm.trans ha'⟩

/-- Settings that are used are those that are read. -/
theorem loaded_of_settingsIn {around : Nat} {w : World} {s : Settings}
    (h : settingsIn v around w = .ok s) :
    v.checkRoot.runIn w = (.ok (), w) ∧ ∃ loaded,
      v.settingsOn w.disk (around + 3) = .ok loaded ∧ s = loaded.settings.validated := by
  rcases v.runIn_checkRoot_cases w with ⟨e, hcheck⟩ | hcheck
  · rw [settingsIn_of_checkRoot hcheck] at h
    cases h
  · rcases hsettle : (v.settleSettings (around + 2)).runIn w with ⟨r, w₂⟩
    rw [settingsIn_of_settleSettings hcheck hsettle] at h
    rw [h] at hsettle
    exact ⟨hcheck, of_settleSettings_eq_ok hsettle⟩

/-- Settings are used only in a vault that is there. -/
theorem of_settingsIn {around : Nat} {w : World} {s : Settings} (ht : w.disk.IsTree)
    (h : settingsIn v around w = .ok s) :
    (v.spot []).Accepted w.disk ∧ w.disk.get? v.place = some .folder ∧
      ∃ loaded, v.settingsOn w.disk (around + 3) = .ok loaded ∧
        s = loaded.settings.validated := by
  obtain ⟨hcheck, hloaded⟩ := loaded_of_settingsIn h
  obtain ⟨hacc, hroot⟩ := (of_checkRoot ht hcheck).2 rfl
  exact ⟨hacc, hroot, hloaded⟩

/-- Whatever fails from outside, the work of an operation comes to one of its outcomes. -/
theorem work_cases {day : Date} {around : Nat} {w w' : World} (ht : w.disk.IsTree)
    {r : Except Failure Tally} (h : (op.work v day around).runIn w = (r, w')) :
    op.Outcome v around day w.Calm w.disk r w'.disk := by
  rcases settingsIn_cases v around w with ⟨e, w₁, hset⟩ | ⟨s, w₁, hset⟩
  · rw [hset.work] at h
    cases h
    rcases hset.saved ht with rfl | ⟨hroot, loaded, cut, -, -, -, hlike⟩
    · exact .unread
    · rw [hlike.disk]
      exact .unlisted hroot
  · obtain ⟨hacc, hroot, loaded, hload, rfl⟩ := of_settingsIn ht hset.settings
    obtain ⟨-, hlike⟩ := hset.saved ht
    have hd₁ : w₁.disk = v.savedOn w.disk loaded.settings.validated.fileBytes := hlike.disk
    rw [hset.work] at h
    rcases runIn_bind_cases h with ⟨notes, w₂, hnotes, hrun⟩ | ⟨e, hnotes, rfl⟩
    · obtain ⟨hd₂, -, hc₂, ⟨-, hok⟩ | ⟨e, he⟩⟩ := of_notes hnotes
      · cases hok
        rw [← hd₂] at hrun
        exact .ran hroot hacc hload (hd₂.trans hd₁) (fun hw => hc₂ (hlike.calm hw)) hrun
      · cases he
    · obtain ⟨hd₂, -⟩ := of_notes hnotes
      rw [hd₂, hd₁]
      exact .unlisted hroot

/-- A run of an operation fails at its log, or does its work without the messages from before. -/
theorem run_parts {today : Option Date} {verbose : Bool} {around : Nat} {w w' : World}
    {r : Except Failure (Option Tally)}
    (h : (op.run v today verbose around).runIn w = (r, w')) :
    (∃ e, (openLog verbose).runIn { w with notices := [] } = (.error e, w') ∧ r = .error e) ∨
      ∃ setup w₁ result w₂,
        (openLog verbose).runIn { w with notices := [] } = (.ok setup, w₁) ∧
        (op.body v today around).runIn w₁ = (result, w₂) ∧ r = .ok result.toOption ∧
        w₂.Agrees w' ∧ w'.notices = w₂.notices ++ op.ending result := by
  rw [run] at h
  have hclear : clearNotices.runIn w = (.ok (), { w with notices := [] }) := rfl
  rw [runIn_bind_of_ok hclear, runIn_get_bind] at h
  rcases runIn_bind_cases h with ⟨setup, w₁, hopen, h⟩ | ⟨e, hopen, rfl⟩
  · rcases hbody : (op.body v today around).runIn w₁ with ⟨result, w₂⟩
    have hatt : (Act.attempt (op.body v today around)).runIn w₁ = (.ok result, w₂) := by
      rw [runIn_attempt, hbody]
    obtain ⟨w₃, hsettle, hlike₃, hnotices⟩ := runIn_settle op v result w₂
    obtain ⟨w₄, hclose, hlike₄⟩ := runIn_closeLog setup w.events.length w₃
    rw [runIn_bind_of_ok hatt, runIn_bind_of_ok hsettle] at h
    have hrun := runIn_bind_of_ok hclose fun _ => (pure result.toOption : Act (Option Tally))
    rw [hrun] at h
    cases h
    exact Or.inr ⟨setup, w₁, result, w₂, hopen, hbody, rfl, (hlike₃.trans hlike₄).toAgrees,
      ((silent_closeLog setup _).of_runIn hclose).trans hnotices⟩
  · exact Or.inl ⟨e, hopen, rfl⟩

/-- Where the log could be opened, the work of a run begins without messages. -/
theorem of_openLog_ok {verbose : Bool} {w w₁ : World} {setup : LogSetup}
    (h : (openLog verbose).runIn { w with notices := [] } = (.ok setup, w₁)) :
    w.Agrees w₁ ∧ w₁.clock = clockAt verbose w.clock ∧ w₁.notices = [] := by
  have hlike := of_openLog h
  exact ⟨⟨hlike.disk, hlike.intrusions, hlike.permitted⟩, hlike.clock,
    (silent_openLog verbose).of_runIn h⟩

/-- A run of an operation fails at its log, or has what its work comes to as the result. -/
theorem of_run {today : Option Date} {verbose : Bool} {around : Nat} {w w' : World}
    (ht : w.disk.IsTree) {r : Except Failure (Option Tally)}
    (h : (op.run v today verbose around).runIn w = (r, w')) :
    (∃ e, (openLog verbose).runIn { w with notices := [] } = (.error e, w') ∧ r = .error e) ∨
      ∃ setup w₁ result w₂,
        (openLog verbose).runIn { w with notices := [] } = (.ok setup, w₁) ∧
        (op.work v (day today (clockAt verbose w.clock)) around).runIn w = (result, w₂) ∧
        r = .ok result.toOption ∧ w₂.Agrees w' := by
  rcases run_parts h with hfails | ⟨setup, w₁, result, w₂, hopen, hbody, rfl, ha₂, -⟩
  · exact Or.inl hfails
  · -- the work is the same in the world before the log was opened
    obtain ⟨ha, hclock, -⟩ := of_openLog_ok hopen
    obtain ⟨w₃, hwork, ha₃⟩ := of_body (ha.disk ▸ ht) hbody
    rw [hclock] at hwork
    obtain ⟨w₄, hwork, ha₄⟩ := (agrees_work op v _ around).of_runIn ha.symm hwork
    exact Or.inr ⟨setup, w₁, result, w₄, hopen, hwork, rfl, ha₄.symm.trans (ha₃.trans ha₂)⟩

/-- Whatever fails from outside, a run of an operation fails at its log, or has what its work
comes to as the result. -/
theorem run_cases {today : Option Date} {verbose : Bool} {around : Nat} {w w' : World}
    (ht : w.disk.IsTree) {r : Except Failure (Option Tally)}
    (h : (op.run v today verbose around).runIn w = (r, w')) :
    ((∃ e, r = .error e) ∧ w'.disk = w.disk) ∨
      ∃ result, r = .ok result.toOption ∧
        op.Outcome v around (day today (clockAt verbose w.clock)) w.Calm w.disk result w'.disk := by
  rcases of_run ht h with ⟨e, hopen, rfl⟩ | ⟨-, -, result, w₂, -, hwork, rfl, ha⟩
  · exact Or.inl ⟨⟨e, rfl⟩, (of_openLog hopen).disk⟩
  · refine Or.inr ⟨result, rfl, ?_⟩
    rw [ha.disk]
    exact work_cases ht hwork

end Operation

end NoteArchive
