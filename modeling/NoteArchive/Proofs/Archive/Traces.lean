import NoteArchive.Proofs.Archive.Told
import NoteArchive.Proofs.Journal.Sinks

/-!
# Traces of failures on the console

A progress log logs the trace of a failure only where it has a log file, but then the console shows
it too, if it shows everything.

* `LogSetup.showsTraces`: a set-up with which the console shows traces.
* `tracesShown`: the failures whose traces it shows in a row of events; `Logging.traces`: those
  whose traces stand on it.
* `traces_hearAll_opened`: these are the same.
* `traces_on_console`: so it is with a run, where all traces are shown exactly when every file is.
-/

namespace NoteArchive

/-- The failure whose trace an event asks for. -/
def Event.cause? : Event → Option Failure
  | .progress (.failed _ _ cause) => cause
  | _ => none

/-- Traces come to the console: they are logged, and the console shows what is as little serious. -/
def LogSetup.showsTraces (setup : LogSetup) : Bool :=
  setup.logFile.isSome && decide (setup.consoleLevel.rank ≤ Level.debug.rank)

/-- The failures whose traces are shown on the console in a row of events, where `setup` is in force
at first. -/
def tracesShown : LogSetup → List Event → List Failure
  | _, [] => []
  | _, .opened setup :: rest => tracesShown setup rest
  | setup, e :: rest =>
    (if setup.showsTraces then e.cause?.toList else []) ++ tracesShown setup rest

theorem tracesShown_cons {e : Event} (h : ¬ e.IsOpening) (setup : LogSetup) (rest : List Event) :
    tracesShown setup (e :: rest) =
      (if setup.showsTraces then e.cause?.toList else []) ++ tracesShown setup rest := by
  cases e with
  | opened setup' => exact absurd trivial h
  | _ => rfl

/-- While no other progress log is opened, either all traces are shown or none. -/
theorem tracesShown_of_not_isOpening {setup : LogSetup} {events : List Event}
    (h : ∀ e ∈ events, ¬ e.IsOpening) :
    tracesShown setup events =
      if setup.showsTraces then events.filterMap Event.cause? else [] := by
  induction events with
  | nil => simp [tracesShown]
  | cons e rest ih =>
    have hrest := ih fun e' he' => h e' (List.mem_cons_of_mem _ he')
    rw [tracesShown_cons (h e List.mem_cons_self), hrest]
    split
    · cases hc : e.cause? with
      | none => rw [List.filterMap_cons_none hc]; rfl
      | some cause => rw [List.filterMap_cons_some hc]; rfl
    · rfl

/-! ## What a row of steps brings to the console -/

/-- The failures whose traces come to the console in a row of steps. -/
def consoleTraces (setup : LogSetup) (steps : List LogStep) : List Failure :=
  ((heard .console (emissions setup steps)).filter Logged.isWritable).filterMap Logged.cause

namespace Logging

theorem consoleTraces_append (setup : LogSetup) (steps rest : List LogStep) :
    consoleTraces setup (steps ++ rest) =
      consoleTraces setup steps ++ consoleTraces (setupAfter setup steps) rest := by
  rw [consoleTraces, emissions_append, heard_append, List.filter_append, List.filterMap_append]
  rfl

theorem consoleTraces_log (setup : LogSetup) (x : Logged) :
    consoleTraces setup [.log x] =
      if (x.record.passes .debug ∧ x.record.passes setup.consoleLevel) ∧ x.isWritable then
        x.cause.toList
      else [] := by
  unfold consoleTraces heard emissions
  by_cases hlogger : x.record.passes .debug
  · by_cases hconsole : x.record.passes setup.consoleLevel
    · by_cases hwrite : x.isWritable
      · cases hcause : x.cause <;>
          simp [hlogger, hconsole, hwrite, emissions, Emission.goesTo, hcause]
      · simp [hlogger, hconsole, hwrite, emissions, Emission.goesTo]
    · simp [hlogger, hconsole, emissions, Emission.goesTo]
  · simp [hlogger, emissions]

/-- Without causes no trace comes to the console. -/
theorem consoleTraces_of_no_cause {setup : LogSetup} {xs : List Logged}
    (h : ∀ x ∈ xs, x.cause = none) : consoleTraces setup (xs.map .log) = [] := by
  induction xs with
  | nil => rfl
  | cons x xs ih =>
    have hx : x.cause = none := h x List.mem_cons_self
    have hrest := ih fun y hy => h y (List.mem_cons_of_mem _ hy)
    rw [List.map_cons, ← List.singleton_append, consoleTraces_append, consoleTraces_log, hx]
    show (if _ then [] else []) ++ consoleTraces setup (xs.map .log) = []
    rw [hrest, ite_self, List.append_nil]

end Logging

namespace ProgressLog

open Logging

theorem cause_of_mem_errorLines {errors : List (String × String)} {x : Logged}
    (hx : x ∈ errorLines errors) : x.cause = none := by
  rw [errorLines] at hx
  split at hx
  · cases hx
  · rcases List.mem_cons.1 hx with rfl | hx
    · rfl
    · rcases List.mem_cons.1 hx with rfl | hx
      · rfl
      · obtain ⟨_, -, rfl⟩ := List.mem_map.1 hx
        rfl

/-- Only for the failure of a file a trace is logged. -/
theorem cause_of_mem_logged {log : ProgressLog} {p : ProgressEvent}
    (hp : (Event.progress p).cause? = none) {x : Logged} (hx : x ∈ log.logged p) :
    x.cause = none := by
  cases p with
  | started operation now vault settings =>
    obtain ⟨_, -, rfl⟩ := List.mem_map.1 hx
    rfl
  | found path =>
    rw [logged] at hx
    split at hx
    · obtain rfl := List.mem_singleton.1 hx
      rfl
    · cases hx
  | completed operation now report =>
    rcases List.mem_append.1 hx with hx | hx
    · rcases List.mem_append.1 hx with hx | hx
      · obtain ⟨_, -, rfl⟩ := List.mem_map.1 hx
        rfl
      · exact cause_of_mem_errorLines hx
    · obtain rfl := List.mem_singleton.1 hx
      rfl
  | failed path message cause =>
    obtain rfl : cause = none := hp
    rcases List.mem_cons.1 hx with rfl | hx
    · rfl
    · simp [traceLines] at hx
  | skipped path reason | warned text | informed text | noted text =>
    obtain rfl := List.mem_singleton.1 hx
    rfl

/-- What a progress log is told brings the trace of its cause to the console, if it does so. -/
theorem consoleTraces_logged (log : ProgressLog) (p : ProgressEvent) :
    consoleTraces log.setup ((log.logged p).map .log) =
      if log.setup.showsTraces then (Event.progress p).cause?.toList else [] := by
  cases hp : (Event.progress p).cause? with
  | none =>
    rw [consoleTraces_of_no_cause fun x hx => cause_of_mem_logged hp hx]
    exact (ite_self _).symm
  | some e =>
    obtain ⟨path, message, rfl⟩ : ∃ path message, p = .failed path message (some e) := by
      cases p with
      | failed path message cause =>
        obtain rfl : cause = some e := hp
        exact ⟨path, message, rfl⟩
      | _ => cases hp
    have hline : consoleTraces log.setup
        [.log (line .error (failureText path message (some e)))] = [] := by
      rw [consoleTraces_log]
      exact ite_self _
    have htrace : consoleTraces log.setup [.log (traced e)] =
        if log.setup.consoleLevel.rank ≤ Level.debug.rank then [e] else [] := by
      -- the text of a trace can be written
      have hwrite : (traced e).isWritable = true := rfl
      rw [consoleTraces_log, hwrite]
      by_cases h : log.setup.consoleLevel.rank ≤ Level.debug.rank <;>
        simp [traced, Record.passes, h]
    rw [logged, List.map_cons, ← List.singleton_append, consoleTraces_append, hline,
      List.nil_append]
    show consoleTraces log.setup ((log.traceLines (some e)).map .log) = _
    rw [traceLines, LogSetup.showsTraces]
    cases log.setup.logFile with
    | none => rfl
    | some name => simpa using htrace

end ProgressLog

namespace Logging

/-! ## The console -/

/-- The failures whose traces stand on the console. -/
def traces (l : Logging) : List Failure := l.console.filterMap Logged.cause

/-- An event brings the trace it asks for to the console, if the set-up does so. -/
theorem consoleTraces_steps {e : Event} (h : ¬ e.IsOpening) (log : ProgressLog) :
    consoleTraces log.setup (e.steps (some log)) =
      if log.setup.showsTraces then e.cause?.toList else [] := by
  have hrecord : ∀ r : Record, consoleTraces log.setup [.log ⟨r, none⟩] = [] := by
    intro r
    rw [consoleTraces_log]
    exact ite_self _
  cases e with
  | opened setup => exact absurd trivial h
  | progress p => exact log.consoleTraces_logged p
  | record r => exact (hrecord r).trans (ite_self _).symm
  | notice text => exact (hrecord (noticeRecord text)).trans (ite_self _).symm

theorem consoleTraces_stepsOf (log : ProgressLog) (events : List Event) :
    consoleTraces log.setup (Event.stepsOf (some log) events) = tracesShown log.setup events := by
  induction events generalizing log with
  | nil => rfl
  | cons e rest ih =>
    obtain ⟨log', hforce, hsetup⟩ := exists_inForce log e
    rw [Event.stepsOf, hforce, consoleTraces_append, ← hsetup, ih]
    by_cases hopening : e.IsOpening
    · -- the set-up is another one from here on
      cases e with
      | opened setup =>
        obtain rfl : log' = { setup } := (Option.some.inj hforce).symm
        rfl
      | _ => exact hopening.elim
    · have hsame : log'.setup = log.setup := by
        cases e with
        | opened setup => exact absurd trivial hopening
        | progress p =>
          obtain rfl : log' = log.after p := (Option.some.inj hforce).symm
          cases p <;> rfl
        | _ => exact congrArg ProgressLog.setup (Option.some.inj hforce).symm
      rw [hsame, consoleTraces_steps hopening, tracesShown_cons hopening]

/-- After a progress log is opened, the console has the traces that its set-up shows. -/
theorem traces_hearAll_opened (l : Logging) (setup : LogSetup) (events : List Event) :
    (l.hearAll (.opened setup :: events)).traces = l.traces ++ tracesShown setup events := by
  have hwrote := (wrote_hearAll_opened l setup events).loggedTo .console
  have hconsole : (l.hearAll (.opened setup :: events)).console = l.console ++
      (heard .console (emissions setup (Event.stepsOf (some { setup }) events))).filter
        Logged.isWritable := hwrote
  rw [traces, hconsole, List.filterMap_append]
  exact congrArg (l.traces ++ ·) (consoleTraces_stepsOf { setup } events)

end Logging

/-! ## Runs -/

namespace Operation

theorem showsTraces_of_isSetup {verbose : Bool} {setup : LogSetup} (h : IsSetup verbose setup) :
    setup.showsTraces = verbose := by
  cases verbose with
  | false =>
    obtain rfl : setup = {} := h
    rfl
  | true =>
    obtain ⟨name, rfl⟩ := h
    rfl

end Operation

open Act

/-- What the console shows of traces: from the opening of a progress log on, those of all failures
that are told with a cause while the set-up in force has a log file and a console that shows
everything, and no others.  In a run these are all failures that are told with a cause, if every
file is shown, and else none; and a run that is aborted tells its failure so. -/
theorem traces_on_console (l : Logging) :
    (∀ (setup : LogSetup) (events : List Event),
      (l.hearAll (.opened setup :: events)).traces = l.traces ++ tracesShown setup events) ∧
    ∀ (op : Operation) (v : Vault) (today : Option Date) (verbose : Bool) (around : Nat) (w : World),
      ∃ events, ((op.run v today verbose around).runIn w).2.events = w.events ++ events ∧
        (l.hearAll events).traces =
          l.traces ++ (if verbose then events.filterMap Event.cause? else []) ∧
        (((op.run v today verbose around).runIn w).1 = .ok none →
          events.filterMap Event.cause? ≠ []) := by
  refine ⟨l.traces_hearAll_opened, fun op v today verbose around w => ?_⟩
  rcases hrun : (op.run v today verbose around).runIn w with ⟨r, w'⟩
  rcases Operation.told_run hrun with
    ⟨⟨e, rfl⟩, hevents⟩ | ⟨setup, w₁, result, w₂, hsetup, -, hopened, hbody, rfl, hevents⟩
  · refine ⟨[], by rw [hevents, List.append_nil], ?_, fun h => by cases h⟩
    show l.traces = _
    cases verbose <;> exact (List.append_nil _).symm
  · obtain ⟨told, htold, hnone⟩ := Operation.not_isOpening_of_body hbody
    -- the log is opened, the work is done, and its end is told
    have hrest : ∀ e ∈ told ++ op.endingEvents v result, ¬ e.IsOpening := by
      intro e he
      rcases List.mem_append.1 he with he | he
      · exact hnone e he
      · exact Operation.not_isOpening_of_mem_endingEvents he
    refine ⟨.opened setup :: (told ++ op.endingEvents v result), ?_, ?_, fun h => ?_⟩
    · rw [hevents, htold, hopened]
      simp [List.append_assoc]
    · rw [Logging.traces_hearAll_opened, tracesShown_of_not_isOpening hrest,
        Operation.showsTraces_of_isSetup hsetup, List.filterMap_cons_none rfl]
    · cases result with
      | ok t => cases h
      | error e =>
        have hcause : e ∈ (Event.opened setup :: (told ++ op.endingEvents v (.error e))).filterMap
            Event.cause? :=
          List.mem_filterMap.2 ⟨.progress (.failed v.text _ (some e)),
            List.mem_cons_of_mem _ (List.mem_append_right _ List.mem_cons_self), rfl⟩
        exact List.ne_nil_of_mem hcause

/-- A run that shows every file, in a vault whose files cannot be listed: the trace of the failure
stands on the console. -/
theorem trace_on_console_of_unlisted_vault :
    let v : Vault := ⟨⟨"/", ["v"]⟩, ["v"]⟩
    let w : World := .ofDisk { entries := [(["v"], .folder)] }
      { listing := [some ⟨.system, "OSError", "boom"⟩] }
    let events := ((Operation.archive.run v none true).runIn w).2.events
    (Logging.hearAll {} events).traces = [.intrusion ⟨.system, "OSError", "boom"⟩] ∧
      Text.wide "スタックトレース:\n<TRACEBACK>" ∈
        (Logging.hearAll {} events).console.map Logged.text := by
  intro v w events
  exact ⟨by decide +kernel, by decide +kernel⟩

end NoteArchive
