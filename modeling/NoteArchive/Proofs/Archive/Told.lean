import NoteArchive.Proofs.Archive.Whole
import NoteArchive.Proofs.World.Told

/-!
# What the parts of an operation tell

* `Event.IsRoutine`: the events of which most are: no progress log is opened, and nothing is said
  of the format.
* `tells_ensureFolder`, `tells_move` and their like: what is done to the vault tells such events
  only.  `Batch.tells_run`: so does a batch.
* `Operation.told_openLog`: a run begins with the opening of its progress log.
* `Operation.told_run`: what is told later is what the work tells, and what is told of its end.
-/

namespace NoteArchive

open Act

/-- The event neither opens a progress log nor says anything of the format. -/
def Event.IsRoutine : Event → Prop
  | .opened _ => False
  | .record r => r.source ≠ some "date_format"
  | .notice _ => True
  | .progress _ => True

/-- The event opens a progress log. -/
def Event.IsOpening : Event → Prop
  | .opened _ => True
  | _ => False

theorem Event.IsRoutine.not_isOpening {e : Event} (h : e.IsRoutine) : ¬ e.IsOpening := by
  cases e with
  | opened setup => exact fun _ => h
  | _ => exact id

/-! ## Vaults -/

namespace Vault

variable {v : Vault}

theorem tells_isThere (v : Vault) (path : String) : Tells Event.IsRoutine (v.isThere path) := by
  refine (tells_ofExcept _).bind fun s => tells_get_bind fun w => ?_
  exact tells_ofExcept _ w

theorem tells_makeFolder (v : Vault) (path : String) :
    Tells Event.IsRoutine (v.makeFolder path) := by
  refine (tells_interrupt _).bind fun _ => (tells_ofExcept _).bind fun s => ?_
  refine tells_ite (tells_throw _) (tells_get_bind fun w => ?_)
  split
  · exact ⟨[_], rfl, by simp [Event.IsRoutine]⟩
  all_goals exact tells_throw _ w

theorem tells_ensureSteps (v : Vault) (steps : List String) :
    Tells Event.IsRoutine (v.ensureSteps steps) := by
  induction steps with
  | nil => exact tells_pure ()
  | cons step rest ih =>
    refine (v.tells_isThere step).bind fun there => tells_ite ih ?_
    exact (v.tells_makeFolder step).bind fun _ =>
      (tells_tell (by simp [Event.IsRoutine])).bind fun _ => ih

theorem tells_ensureFolder (v : Vault) (folder : String) :
    Tells Event.IsRoutine (v.ensureFolder folder) :=
  v.tells_ensureSteps _

theorem tells_systemMove (source target : Spot) :
    Tells Event.IsRoutine (systemMove source target) := by
  refine (tells_takeTurn _).bind fun turn => ?_
  cases turn with
  | some i =>
    dsimp only
    split <;> exact tells_throw _
  | none =>
    refine tells_ite (tells_throw _) (tells_get_bind fun w => ?_)
    split
    · exact .of_eq rfl
    · exact tells_throw _ w

theorem tells_move (v : Vault) (note : Note) (target : String) :
    Tells Event.IsRoutine (v.move note target) := by
  refine (tells_interrupt _).bind fun _ => (tells_ofExcept _).bind fun source =>
    (tells_ofExcept _).bind fun goal => tells_get.bind fun w => ?_
  refine (tells_ofExcept _).bind fun there => tells_ite ?_ (tells_throw _)
  refine (tells_ofExcept _).bind fun taken => tells_ite (tells_throw _) ?_
  refine (tells_ofExcept _).bind fun folder => tells_ite ?_ (tells_throw _)
  exact (tells_systemMove source goal).bind fun _ =>
    (tells_tell (by simp [Event.IsRoutine])).bind fun _ => tells_pure _

theorem tells_notes (v : Vault) : Tells Event.IsRoutine v.notes := by
  refine (tells_interrupt _).bind fun _ => tells_get_bind fun w => ?_
  split <;> exact .of_eq rfl

theorem tells_putSettings (P : Event → Prop) (v : Vault) (content : List UInt8) :
    Tells P (v.putSettings content) := by
  refine tells_get_bind fun w => ?_
  dsimp only
  rw [runIn_ite]
  split
  · split
    · exact .of_eq rfl
    · rw [runIn_set_bind]
      split <;> exact .of_eq rfl
  · exact .of_eq rfl

theorem tells_saveSettings (v : Vault) (r : Settings.Raw) :
    Tells Event.IsRoutine (v.saveSettings r) := by
  rw [saveSettings]
  split
  · refine (tells_putSettings _ v _).bind fun _ => tells_tell ?_
    simp [Event.IsRoutine, Settings.fileRecord]
  · exact (tells_putSettings _ v _).bind fun _ => tells_throw _

end Vault

/-! ## Batches -/

namespace Batch

variable {v : Vault} {label : String}

theorem tells_batchMove (v : Vault) (n : Note) (D : String) :
    Tells Event.IsRoutine (Batch.move v n D) :=
  (v.tells_ensureFolder _).bind fun _ => (v.tells_move n D).bind fun _ =>
    tells_tell (by simp [Event.IsRoutine, record])

theorem tells_carryOut (v : Vault) (label : String) (t : Tally) (n : Note) (D : String) :
    Tells Event.IsRoutine (carryOut v label t n D) := by
  refine (tells_batchMove v n D).attempt.bind fun r => ?_
  cases r with
  | ok _ => exact (tells_notify trivial).bind fun _ => tells_pure _
  | error e =>
    have hafter : Tells Event.IsRoutine (do
        notify (n.name ++ " の" ++ label ++ "に失敗しました: " ++ (blame e).1)
        tellProgress (.failed n.path (blame e).1 (blame e).2)
        return t.addFailed n.path (blame e).1) :=
      (tells_notify trivial).bind fun _ => (tells_tellProgress trivial).bind fun _ => tells_pure _
    exact tells_ite ((tells_tell (by simp [Event.IsRoutine, record])).bind fun _ => hafter) hafter

theorem tells_leave (t : Tally) (n : Note) (reason : SkipReason) :
    Tells Event.IsRoutine (leave t n reason) :=
  (tells_tellProgress trivial).bind fun _ =>
    tells_ite ((tells_notify trivial).bind fun _ => tells_pure _) (tells_pure _)

theorem source_of_mem_verdictLog {b : Batch} {n : Note} {r : Record} (h : r ∈ b.verdictLog n) :
    r.source ≠ some "date_format" := by
  rcases List.mem_append.1 h with h | h
  · obtain rfl := List.mem_singleton.1 h
    simp
  · split at h
    · obtain rfl := List.mem_singleton.1 h
      simp [record]
    · obtain rfl := List.mem_singleton.1 h
      simp [record]
    · cases h

theorem tells_step (b : Batch) (v : Vault) (label : String) (t : Tally) (n : Note) :
    Tells Event.IsRoutine (b.step v label t n) := by
  refine (tells_tell (by simp [Event.IsRoutine, record])).bind fun _ => tells_ite ?_ (tells_pure _)
  refine (tells_tellProgress trivial).bind fun _ =>
    (tells_tellAll fun r hr => source_of_mem_verdictLog hr).bind fun _ => ?_
  split
  · exact tells_leave _ _ _
  · exact tells_carryOut _ _ _ _ _

theorem tells_runFrom (b : Batch) (v : Vault) (label : String) (t : Tally) (notes : List Note) :
    Tells Event.IsRoutine (b.runFrom v label t notes) := by
  induction notes generalizing t with
  | nil => exact tells_pure t
  | cons n rest ih => exact (b.tells_step v label t n).bind fun t => ih t

theorem tells_run (b : Batch) (v : Vault) (label : String) (notes : List Note) :
    Tells Event.IsRoutine (b.run v label notes) :=
  (v.tells_ensureFolder _).bind fun _ => (b.tells_runFrom v label {} notes).bind fun _ =>
    (tells_tell (by simp [Event.IsRoutine, record])).bind fun _ => tells_pure _

end Batch

/-! ## Operations -/

namespace Operation

variable {op : Operation} {v : Vault}

theorem tells_appendLog (P : Event → Prop) (name : String) (more : List UInt8) :
    Tells P (appendLog name more) := by
  refine tells_get_bind fun w => ?_
  split
  · exact .of_eq rfl
  · dsimp only
    rw [runIn_set_bind]
    split <;> exact .of_eq rfl

theorem tells_closeLog (P : Event → Prop) (setup : LogSetup) (start : Nat) :
    Tells P (closeLog setup start) := by
  rw [closeLog]
  split
  · exact tells_pure ()
  · refine tells_get_bind fun w => ?_
    exact ((tells_appendLog P _ _).attempt.bind fun _ => tells_pure ()) w

theorem events_appendLog {name : String} {more : List UInt8} {w w' : World}
    {r : Except Failure Unit} (h : (appendLog name more).runIn w = (r, w')) :
    w'.events = w.events := by
  obtain ⟨events, he, hnone⟩ := (tells_appendLog (fun _ => False) name more).of_runIn h
  cases events with
  | nil => rw [he, List.append_nil]
  | cons e rest => exact (hnone e List.mem_cons_self).elim

/-- The set-up of the progress log of a run: where every file is shown, there is a log file, and
the console shows all. -/
def IsSetup (verbose : Bool) (setup : LogSetup) : Prop :=
  if verbose then ∃ name, setup = ⟨.debug, .debug, some name, true⟩ else setup = {}

/-- A run begins with the opening of its progress log; where this fails nothing is told. -/
theorem told_openLog {verbose : Bool} {w w' : World} {r : Except Failure LogSetup}
    (h : (openLog verbose).runIn w = (r, w')) :
    (∃ e, r = .error e ∧ w'.events = w.events) ∨
      ∃ setup, r = .ok setup ∧ IsSetup verbose setup ∧
        w'.events = w.events ++ [.opened setup] := by
  rw [openLog] at h
  cases verbose with
  | false =>
    cases h
    exact Or.inr ⟨{}, rfl, rfl, rfl⟩
  | true =>
    have hclock : readClock.runIn w =
        (.ok w.clock.now, { w with clock := w.clock.advance }) := rfl
    rw [if_pos rfl, runIn_bind_of_ok hclock] at h
    rcases runIn_bind_cases h with ⟨_, w₁, happend, h⟩ | ⟨e, happend, he⟩
    · have hevents := events_appendLog happend
      cases h
      exact Or.inr ⟨_, rfl, ⟨_, rfl⟩, congrArg (· ++ _) hevents⟩
    · have hevents := events_appendLog happend
      exact Or.inl ⟨e, he, hevents⟩

/-! ### The work -/

/-- What the work on the settings tells: nothing where they cannot be read.  Else it tells what is
said of the settings as they are read and as they can be used, and then how they were written. -/
theorem told_settleSettings {around : Nat} {w w' : World} {r : Except Failure Settings}
    (h : (v.settleSettings around).runIn w = (r, w')) :
    (∃ e, v.settingsOn w.disk (around + 1) = .error e ∧ r = .error e ∧ w' = w) ∨
      ∃ loaded, v.settingsOn w.disk (around + 1) = .ok loaded ∧
        (∀ s, r = .ok s → s = loaded.settings.validated) ∧
        World.Told Event.IsRoutine (w.heard (Vault.loadEvents loaded)) w' := by
  rcases Vault.settleSettings_cases h with hfailed | ⟨loaded, saved, w₁, hload, hsave, hw'⟩
  · exact Or.inl hfailed
  · have htold := (v.tells_saveSettings _).of_runIn hsave
    refine Or.inr ⟨loaded, hload, ?_⟩
    rcases hw' with ⟨-, rfl, rfl⟩ | ⟨_, _, -, rfl, hnotify⟩ | ⟨_, -, -, rfl, -, rfl⟩
    · exact ⟨fun s hs => (Except.ok.inj hs).symm, htold⟩
    · exact ⟨fun s hs => (Except.ok.inj hs).symm,
        htold.trans ((tells_notify trivial).of_runIn hnotify)⟩
    · exact ⟨nofun, htold⟩

/-- The event is routine, or is said while the format of some settings is compiled. -/
def IsWork (format : String) (e : Event) : Prop :=
  e.IsRoutine ∨ ∃ r ∈ DateFormat.compileResolvedLog format, e = .record r

theorem tells_afterListing (op : Operation) (v : Vault) (today : Option Date) (s : Settings)
    (notes : List Note) : Tells Event.IsRoutine (op.afterListing v today s notes) := by
  refine (tells_tellProgress trivial).bind fun _ => tells_get.bind fun w => ?_
  refine (Batch.tells_run _ _ _ _).bind fun t => tells_readClock.bind fun now => ?_
  refine (tells_tellProgress trivial).bind fun _ => ?_
  split
  · exact tells_pure t
  · exact (tells_notify trivial).bind fun _ => tells_pure t

theorem tells_afterSettings (op : Operation) (v : Vault) (today : Option Date) (s : Settings) :
    Tells (IsWork s.dateFormat) (op.afterSettings v today s) := by
  refine tells_readClock.bind fun now => (tells_tellProgress (Or.inl trivial)).bind fun _ => ?_
  refine (tells_tellAll fun r hr => Or.inr ⟨r, hr, rfl⟩).bind fun _ => ?_
  refine (tells_tellProgress (Or.inl trivial)).bind fun _ => ?_
  exact ((v.tells_notes).mono fun _ => Or.inl).bind fun notes =>
    (op.tells_afterListing v today s notes).mono fun _ => Or.inl

/-- The work of an operation tells nothing where the vault cannot be used or its settings cannot be
read.  Else it tells what is said of the settings, and then of the format that is used. -/
theorem told_body {today : Option Date} {around : Nat} {w w' : World} {r : Except Failure Tally}
    (h : (op.body v today around).runIn w = (r, w')) :
    ((∃ e, (v.checkRoot.runIn w).1 = .error e ∨ v.settingsOn w.disk (around + 3) = .error e) ∧
        w' = w) ∨
      ∃ loaded, v.settingsOn w.disk (around + 3) = .ok loaded ∧
        World.Told (IsWork loaded.settings.validated.dateFormat)
          (w.heard (Vault.loadEvents loaded)) w' := by
  rcases v.runIn_checkRoot_cases w with ⟨e, hcheck⟩ | hcheck
  · rw [body, runIn_bind_of_error hcheck] at h
    cases h
    exact Or.inl ⟨⟨e, Or.inl (congrArg Prod.fst hcheck)⟩, rfl⟩
  · rw [body, runIn_bind_of_ok hcheck] at h
    rcases hsettle : (v.settleSettings (around + 2)).runIn w with ⟨result, w₂⟩
    rcases told_settleSettings hsettle with ⟨e, hload, rfl, rfl⟩ | ⟨loaded, hload, hs, htold⟩
    · rw [runIn_bind_of_error hsettle] at h
      cases h
      exact Or.inl ⟨⟨e, Or.inr hload⟩, rfl⟩
    · refine Or.inr ⟨loaded, hload, ?_⟩
      have hsettings :=
        htold.mono (Q := IsWork loaded.settings.validated.dateFormat) fun _ => Or.inl
      cases result with
      | error e =>
        rw [runIn_bind_of_error hsettle] at h
        cases h
        exact hsettings
      | ok s =>
        obtain rfl := hs s rfl
        rw [runIn_bind_of_ok hsettle] at h
        exact hsettings.trans ((op.tells_afterSettings v today _).of_runIn h)

theorem IsWork.not_isOpening {format : String} {e : Event} (h : IsWork format e) :
    ¬ e.IsOpening := by
  rcases h with h | ⟨r, -, rfl⟩
  · exact h.not_isOpening
  · exact id

/-- The work of an operation opens no progress log. -/
theorem not_isOpening_of_body {today : Option Date} {around : Nat} {w w' : World}
    {r : Except Failure Tally} (h : (op.body v today around).runIn w = (r, w')) :
    World.Told (fun e => ¬ e.IsOpening) w w' := by
  rcases told_body h with ⟨-, rfl⟩ | ⟨loaded, -, htold⟩
  · exact .of_eq rfl
  · have hsettings : World.Told (fun e => ¬ e.IsOpening) w
        (w.heard (Vault.loadEvents loaded)) := by
      refine ⟨_, rfl, fun e he => ?_⟩
      obtain ⟨r, -, rfl⟩ := List.mem_map.1 he
      exact id
    exact hsettings.trans (htold.mono fun e he => he.not_isOpening)

/-! ### The run -/

/-- What is told of the end of a run, after the work. -/
def endingEvents (op : Operation) (v : Vault) : Except Failure Tally → List Event
  | .ok _ => []
  | .error e =>
    [.progress (.failed v.text (op.name ++ "処理エラー: " ++ e.message) (some e)),
      .notice (op.abortNotice e)]

theorem not_isOpening_of_mem_endingEvents {result : Except Failure Tally} {e : Event}
    (h : e ∈ op.endingEvents v result) : ¬ e.IsOpening := by
  cases result with
  | ok t => cases h
  | error e' =>
    rcases List.mem_cons.1 h with rfl | h
    · exact id
    · obtain rfl := List.mem_singleton.1 h
      exact id

theorem events_settle (op : Operation) (v : Vault) (result : Except Failure Tally) (w : World) :
    ((op.settle v result).runIn w).2.events = w.events ++ op.endingEvents v result := by
  cases result with
  | ok t => exact (List.append_nil _).symm
  | error e => exact List.append_assoc _ _ _

/-- A run tells nothing where its log cannot be opened.  Else it tells that it is opened, then what
its work tells, and then of its end. -/
theorem told_run {today : Option Date} {verbose : Bool} {around : Nat} {w w' : World}
    {r : Except Failure (Option Tally)} (h : (op.run v today verbose around).runIn w = (r, w')) :
    ((∃ e, r = .error e) ∧ w'.events = w.events) ∨
      ∃ setup w₁ result w₂, IsSetup verbose setup ∧ w.Agrees w₁ ∧
        w₁.events = w.events ++ [.opened setup] ∧
        (op.body v today around).runIn w₁ = (result, w₂) ∧ r = .ok result.toOption ∧
        w'.events = w₂.events ++ op.endingEvents v result := by
  rw [run] at h
  have hclear : clearNotices.runIn w = (.ok (), { w with notices := [] }) := rfl
  rw [runIn_bind_of_ok hclear, runIn_get_bind] at h
  rcases runIn_bind_cases h with ⟨setup, w₁, hopen, h⟩ | ⟨e, hopen, rfl⟩
  · rcases told_openLog hopen with ⟨e, he, -⟩ | ⟨setup', hsetup, his, hevents⟩
    · cases he
    · obtain rfl := Except.ok.inj hsetup
      rcases hbody : (op.body v today around).runIn w₁ with ⟨result, w₂⟩
      have hatt : (Act.attempt (op.body v today around)).runIn w₁ = (.ok result, w₂) := by
        rw [runIn_attempt, hbody]
      obtain ⟨w₃, hsettle, -, -⟩ := runIn_settle op v result w₂
      have hended := op.events_settle v result w₂
      rw [hsettle] at hended
      obtain ⟨w₄, hclose, -⟩ := runIn_closeLog setup w.events.length w₃
      obtain ⟨events, hclosed, hnone⟩ := (tells_closeLog (fun _ => False) _ _).of_runIn hclose
      obtain rfl : events = [] := List.eq_nil_iff_forall_not_mem.2 fun e he => hnone e he
      rw [runIn_bind_of_ok hatt, runIn_bind_of_ok hsettle] at h
      have hrun := runIn_bind_of_ok hclose fun _ => (pure result.toOption : Act (Option Tally))
      rw [hrun] at h
      cases h
      rw [List.append_nil] at hclosed
      exact Or.inr ⟨setup, w₁, result, w₂, his, (of_openLog_ok hopen).1, hevents, hbody, rfl,
        hclosed.trans hended⟩
  · rcases told_openLog hopen with ⟨e', -, hevents⟩ | ⟨setup, hok, -, -⟩
    · exact Or.inl ⟨⟨e, rfl⟩, hevents⟩
    · cases hok

end Operation

end NoteArchive
