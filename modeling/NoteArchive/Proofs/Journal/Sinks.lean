import Mathlib.Tactic.Common
import NoteArchive.Journal.Logging

/-!
# Every record once on every sink

While a progress log is in force, each record that its logger takes stands once on the console and
once in its log file, where it is serious enough, and nowhere else.

* `Emission`, `emissions`: what is logged, together with the set-up in force; `heard`: what of it is
  for a sink.
* `Wrote`: what was on the sinks is still there, and at its end is what is for them of the emissions
  and can be written.
* `consoleLine?`, `fileLine?`: what is written of a record; `Wrote.consoleText`, `Wrote.fileText`:
  so the texts of the sinks are continued.
* `handlers_setUp`: the handlers of a progress log are those of its set-up, whatever was there.
* `wrote_setUp`, `wrote_emit`: the two kinds of step; `wrote_follow`, `wrote_hearAll`: a row of
  steps, and a row of events.
* `logs_exactly_once`: the same from the construction of a progress log on, step by step and event
  by event.
-/

namespace NoteArchive

/-- A record that is logged, with the set-up of the progress log in force. -/
structure Emission where
  setup : LogSetup
  logged : Logged

namespace Emission

/-- The record is for a sink: it belongs to the set-up, and the record is serious enough for it. -/
def goesTo (e : Emission) : Sink → Bool
  | .console => e.logged.record.passes e.setup.consoleLevel
  | .file name => e.setup.logFile = some name && e.logged.record.passes e.setup.fileLevel

end Emission

/-- What is for a sink, in the order in which it is logged. -/
def heard (sink : Sink) (es : List Emission) : List Logged :=
  (es.filter fun e => e.goesTo sink).map Emission.logged

theorem heard_append (sink : Sink) (es fs : List Emission) :
    heard sink (es ++ fs) = heard sink es ++ heard sink fs := by
  simp [heard]

/-- What is logged in a row of steps, where `setup` is in force at first.  The logger takes what is
no less serious than `debug`. -/
def emissions : LogSetup → List LogStep → List Emission
  | _, [] => []
  | _, .setUp setup :: rest => emissions setup rest
  | setup, .log x :: rest =>
    (if x.record.passes .debug then [⟨setup, x⟩] else []) ++ emissions setup rest

/-- The steps of the logging in a row of events, where `log` is in force at first. -/
def Event.stepsOf : Option ProgressLog → List Event → List LogStep
  | _, [] => []
  | log, e :: rest => e.steps log ++ stepsOf (e.inForce log) rest

/-- The handlers of a set-up. -/
def LogSetup.handlers (setup : LogSetup) : List Handler :=
  ⟨.console, setup.consoleLevel⟩ ::
    (setup.logFile.map fun name => ⟨.file name, setup.fileLevel⟩).toList

/-! ## What is written of a record -/

namespace Logged

variable {x : Logged}

/-- What the console shows of a record: its text and its trace, if they can be encoded. -/
def consoleLine? (x : Logged) : Option String :=
  (Text.plain? x.record.text).map fun text => text ++ x.trace ++ "\n"

/-- What a log file shows of a record: the same, behind the time and the origin of the record and
its level. -/
def fileLine? (stamp : String) (x : Logged) : Option String :=
  (Text.plain? x.record.text).map fun text =>
    stamp ++ " - " ++ x.record.origin ++ " - " ++ x.record.level.name ++ " - " ++ text ++
      x.trace ++ "\n"

theorem written?_text (x : Logged) : Logging.written? x.text = x.consoleLine? := by
  rw [Logging.written?, text, Text.plain?_append_wide, consoleLine?, Option.map_map]
  rfl

theorem written?_fileLine (stamp : String) (x : Logged) :
    Logging.written? (x.fileLine stamp) = x.fileLine? stamp := by
  rw [Logging.written?, fileLine, Record.fileLine, Text.plain?_append_wide,
    Text.plain?_wide_append, fileLine?, Option.map_map, Option.map_map]
  rfl

/-- Of a record that cannot be written nothing is written. -/
theorem filterMap_filter_isWritable {f : Logged → Option String}
    (hf : ∀ x, Text.plain? x.record.text = none → f x = none) (xs : List Logged) :
    (xs.filter isWritable).filterMap f = xs.filterMap f := by
  induction xs with
  | nil => rfl
  | cons x xs ih =>
    cases hx : Text.plain? x.record.text with
    | none => rw [List.filter_cons_of_neg (by simp [isWritable, hx]), ih,
        List.filterMap_cons_none (hf x hx)]
    | some text =>
      rw [List.filter_cons_of_pos (by simp [isWritable, hx]), List.filterMap_cons,
        List.filterMap_cons, ih]

end Logged

namespace Logging

/-- What is logged on a sink. -/
def loggedTo (l : Logging) : Sink → List Logged
  | .console => l.console
  | .file name => (l.file name).logged

/-- Between two states of the logging each sink got at its end what is for it of `es` and can be
written, and what the log files held before stayed. -/
structure Wrote (l l' : Logging) (es : List Emission) : Prop where
  loggedTo : ∀ sink, l'.loggedTo sink = l.loggedTo sink ++ (heard sink es).filter Logged.isWritable
  before : ∀ name, (l'.file name).before = (l.file name).before

namespace Wrote

variable {l l' l'' : Logging} {es fs : List Emission}

theorem refl (l : Logging) : Wrote l l [] :=
  ⟨fun _ => (List.append_nil _).symm, fun _ => rfl⟩

theorem trans (h : Wrote l l' es) (h' : Wrote l' l'' fs) : Wrote l l'' (es ++ fs) where
  loggedTo sink := by
    rw [h'.loggedTo, h.loggedTo, heard_append, List.filter_append, List.append_assoc]
  before name := (h'.before name).trans (h.before name)

/-- Which progress log is in force says nothing about the sinks. -/
theorem withCurrent (h : Wrote l l' es) (log : Option ProgressLog) :
    Wrote l { l' with current := log } es where
  loggedTo sink := (show _ = l'.loggedTo sink by cases sink <;> rfl).trans (h.loggedTo sink)
  before := h.before

/-- The text on the console is continued. -/
theorem consoleText (h : Wrote l l' es) : l'.consoleText =
    l.consoleText ++ String.join ((heard .console es).filterMap Logged.consoleLine?) := by
  have hconsole : l'.console = l.console ++ (heard .console es).filter Logged.isWritable :=
    h.loggedTo .console
  have hlines : (fun x : Logged => written? x.text) = Logged.consoleLine? :=
    funext Logged.written?_text
  rw [Logging.consoleText, hconsole, List.filterMap_append, String.join_append, hlines,
    Logged.filterMap_filter_isWritable (by simp [Logged.consoleLine?]), Logging.consoleText, hlines]

/-- The text of a log file is continued. -/
theorem fileText (h : Wrote l l' es) (stamp name : String) : l'.fileText stamp name =
    l.fileText stamp name ++
      String.join ((heard (.file name) es).filterMap (Logged.fileLine? stamp)) := by
  have hfile : (l'.file name).logged =
      (l.file name).logged ++ (heard (.file name) es).filter Logged.isWritable :=
    h.loggedTo (.file name)
  have hlines : (fun x : Logged => written? (x.fileLine stamp)) = Logged.fileLine? stamp :=
    funext (Logged.written?_fileLine stamp)
  rw [Logging.fileText, hfile, List.filterMap_append, String.join_append, hlines,
    Logged.filterMap_filter_isWritable (by simp [Logged.fileLine?]), Logging.fileText, hlines]

/-- The content of a log file stays as the front of what it holds later. -/
theorem fileBytes (h : Wrote l l' es) (stamp name : String) : l'.fileBytes stamp name =
    l.fileBytes stamp name ++ Text.Utf8.encode
      (String.join ((heard (.file name) es).filterMap (Logged.fileLine? stamp))).toList := by
  rw [Logging.fileBytes, h.before, h.fileText, String.toList_append, Text.Utf8.encode,
    List.flatMap_append, ← List.append_assoc]
  rfl

end Wrote

/-! ## Log files -/

@[simp]
theorem fileIn_appendTo (key name : String) (more : List Logged)
    (files : List (String × LogFile)) : fileIn name (appendTo key more files) =
      if key = name then (fileIn name files).append more else fileIn name files := by
  induction files with
  | nil => by_cases h : key = name <;> simp [appendTo, fileIn, h]
  | cons entry rest ih =>
    obtain ⟨other, f⟩ := entry
    rw [appendTo]
    by_cases hother : other = key
    · subst hother
      by_cases h : other = name <;> simp [fileIn, h]
    · rw [if_neg hother, fileIn, ih, fileIn]
      by_cases h : other = name
      · have hkey : key ≠ name := fun hk => hother (h.trans hk.symm)
        simp [h, hkey]
      · simp [h]

@[simp]
theorem LogFile.append_nil (f : LogFile) : f.append [] = f := by
  simp [LogFile.append]

/-! ## Setting up -/

theorem takeHandlers_eq (l : Logging) : l.takeHandlers = { l with handlers := [] } := by
  have htake : ∀ (hs : List Handler) (l : Logging), l.handlers = hs →
      hs.foldl (fun l h => { l with handlers := l.handlers.erase h }) l =
        { l with handlers := [] } := by
    intro hs
    induction hs with
    | nil => rintro ⟨_, _, _, _⟩ rfl; rfl
    | cons h hs ih =>
      intro l hl
      rw [List.foldl_cons, ih _ (by rw [hl, List.erase_cons_head])]
  exact htake l.handlers l rfl

variable {l : Logging}

/-- A progress log has its own handlers only. -/
@[simp]
theorem handlers_setUp (l : Logging) (setup : LogSetup) :
    (l.setUp setup).handlers = setup.handlers := by
  unfold setUp LogSetup.handlers
  rw [takeHandlers_eq]
  cases setup.logFile <;> rfl

/-- When a progress log is set up nothing is logged. -/
theorem wrote_setUp (l : Logging) (setup : LogSetup) : Wrote l (l.setUp setup) [] := by
  have hconsole : (l.setUp setup).console = l.console := by
    unfold setUp
    rw [takeHandlers_eq]
    cases setup.logFile <;> rfl
  have hfile : ∀ name, (l.setUp setup).file name = l.file name := by
    intro name
    unfold setUp
    rw [takeHandlers_eq]
    cases setup.logFile with
    | none => rfl
    | some key =>
      show fileIn name (appendTo key [] l.files) = fileIn name l.files
      rw [fileIn_appendTo, LogFile.append_nil, ite_self]
  refine ⟨fun sink => ?_, fun name => by rw [hfile]⟩
  rw [show heard sink [] = [] from rfl, List.filter_nil, List.append_nil]
  cases sink with
  | console => exact hconsole
  | file name => exact congrArg LogFile.logged (hfile name)

/-! ## Logging -/

/-- A record passes the logger of the program once. -/
theorem flatMap_handlersOf (l : Logging) (r : Record) :
    r.loggers.flatMap l.handlersOf = l.handlers := by
  have hup : ∀ front : List String,
      (Record.loggersFrom (front ++ Record.programLogger)).flatMap l.handlersOf = l.handlers := by
    intro front
    induction front with
    | nil => exact List.append_nil _
    | cons name front ih =>
      have hbelow : l.handlersOf (name :: (front ++ Record.programLogger)) = [] := by
        refine if_neg fun h => ?_
        simpa [Record.programLogger] using congrArg List.length h
      rw [List.cons_append, Record.loggersFrom, List.flatMap_cons, hbelow, List.nil_append, ih]
  unfold Record.loggers Record.logger
  cases r.source with
  | none => exact hup []
  | some source => exact hup _

theorem handlers_handle (x : Logged) (l : Logging) (h : Handler) :
    (handle x l h).handlers = l.handlers := by
  unfold handle write
  split
  · split
    · cases h.sink <;> rfl
    · rfl
  · rfl

theorem before_put (x : Logged) (l : Logging) (s : Sink) (name : String) :
    ((l.put x s).file name).before = (l.file name).before := by
  cases s with
  | console => rfl
  | file key =>
    show (fileIn name (appendTo key [x] l.files)).before = _
    rw [fileIn_appendTo]
    split <;> rfl

theorem before_handle (x : Logged) (l : Logging) (h : Handler) (name : String) :
    ((handle x l h).file name).before = (l.file name).before := by
  unfold handle write
  split
  · split
    · exact before_put x l h.sink name
    · rfl
  · rfl

theorem loggedTo_put (x : Logged) (l : Logging) (s sink : Sink) :
    (l.put x s).loggedTo sink = l.loggedTo sink ++ if s = sink then [x] else [] := by
  cases s with
  | console => cases sink <;> simp [put, loggedTo, file]
  | file key =>
    cases sink with
    | console => simp [put, loggedTo]
    | file name =>
      by_cases hname : key = name <;> simp [put, loggedTo, file, hname, LogFile.append]

/-- A handler brings a record that can be written to its own sink, and to no other one. -/
theorem loggedTo_handle (x : Logged) (l : Logging) (h : Handler) (sink : Sink) :
    (handle x l h).loggedTo sink = l.loggedTo sink ++
      (if h.sink = sink ∧ x.record.passes h.level then [x] else []).filter Logged.isWritable := by
  unfold handle write
  by_cases hpass : x.record.passes h.level
  · by_cases hwrite : x.isWritable
    · rw [if_pos hpass, if_pos hwrite, loggedTo_put]
      by_cases hsink : h.sink = sink <;> simp [hpass, hwrite, hsink]
    · rw [if_pos hpass, if_neg hwrite]
      by_cases hsink : h.sink = sink <;> simp [hpass, hwrite, hsink]
  · simp [hpass]

/-- What a row of handlers does with a record. -/
theorem foldl_handle (x : Logged) (hs : List Handler) (l : Logging) :
    (hs.foldl (handle x) l).handlers = l.handlers ∧
    (∀ name, ((hs.foldl (handle x) l).file name).before = (l.file name).before) ∧
    ∀ sink, (hs.foldl (handle x) l).loggedTo sink = l.loggedTo sink ++
      (hs.flatMap fun h => if h.sink = sink ∧ x.record.passes h.level then [x] else []).filter
        Logged.isWritable := by
  induction hs generalizing l with
  | nil => simp
  | cons h hs ih =>
    obtain ⟨hhandlers, hbefore, hlogged⟩ := ih (handle x l h)
    refine ⟨?_, fun name => ?_, fun sink => ?_⟩
    · rw [List.foldl_cons, hhandlers, handlers_handle]
    · rw [List.foldl_cons, hbefore, before_handle]
    · rw [List.foldl_cons, hlogged, loggedTo_handle, List.flatMap_cons, List.filter_append,
        List.append_assoc]

/-- The handlers of a set-up bring a record once to each of its sinks. -/
theorem flatMap_handlers (setup : LogSetup) (x : Logged) (sink : Sink) :
    (setup.handlers.flatMap fun h =>
      if h.sink = sink ∧ x.record.passes h.level then [x] else []) =
        heard sink [⟨setup, x⟩] := by
  unfold LogSetup.handlers heard
  cases sink with
  | console =>
    cases setup.logFile <;> by_cases hpass : x.record.passes setup.consoleLevel <;>
      simp [Emission.goesTo, hpass]
  | file name =>
    cases hfile : setup.logFile with
    | none => simp [Emission.goesTo, hfile]
    | some key =>
      by_cases hname : key = name <;> by_cases hpass : x.record.passes setup.fileLevel <;>
        simp [Emission.goesTo, hfile, hname, hpass]

theorem handlers_emit (l : Logging) (x : Logged) : (l.emit x).handlers = l.handlers := by
  unfold emit
  split
  · exact (foldl_handle x _ l).1
  · rfl

theorem wrote_emit {setup : LogSetup} (h : l.handlers = setup.handlers) (x : Logged) :
    Wrote l (l.emit x) (if x.record.passes .debug then [⟨setup, x⟩] else []) := by
  unfold emit
  split
  · rw [flatMap_handlersOf, h]
    obtain ⟨-, hbefore, hlogged⟩ := foldl_handle x setup.handlers l
    exact ⟨fun sink => by rw [hlogged, flatMap_handlers], hbefore⟩
  · exact .refl l

/-! ## Steps -/

/-- The set-up in force after a row of steps. -/
def setupAfter : LogSetup → List LogStep → LogSetup
  | setup, [] => setup
  | _, .setUp setup :: rest => setupAfter setup rest
  | setup, .log _ :: rest => setupAfter setup rest

/-- From a progress log on, every row of steps leaves the handlers of the one in force, and each
sink gets what it shows of the emissions. -/
theorem wrote_follow {setup : LogSetup} (h : l.handlers = setup.handlers) (steps : List LogStep) :
    (l.follow steps).handlers = (setupAfter setup steps).handlers ∧
      Wrote l (l.follow steps) (emissions setup steps) := by
  induction steps generalizing l setup with
  | nil => exact ⟨h, .refl l⟩
  | cons s steps ih =>
    cases s with
    | setUp setup' =>
      obtain ⟨hhandlers, hrest⟩ := ih (handlers_setUp l setup')
      exact ⟨hhandlers, (wrote_setUp l setup').trans hrest⟩
    | log x =>
      obtain ⟨hhandlers, hrest⟩ := ih ((handlers_emit l x).trans h)
      exact ⟨hhandlers, (wrote_emit h x).trans hrest⟩

/-! ## Events -/

theorem setupAfter_map_log {α : Type} (setup : LogSetup) (f : α → Logged) (xs : List α) :
    setupAfter setup (xs.map fun a => .log (f a)) = setup := by
  induction xs with
  | nil => rfl
  | cons a xs ih => exact ih

theorem emissions_append (setup : LogSetup) (steps rest : List LogStep) :
    emissions setup (steps ++ rest) =
      emissions setup steps ++ emissions (setupAfter setup steps) rest := by
  induction steps generalizing setup with
  | nil => rfl
  | cons s steps ih =>
    cases s with
    | setUp setup' => exact ih setup'
    | log x =>
      rw [List.cons_append, emissions, ih, ← List.append_assoc]
      rfl

/-- After an event a progress log is in force whose set-up is that of the last step. -/
theorem exists_inForce (log : ProgressLog) (e : Event) : ∃ log', e.inForce (some log) = some log' ∧
    log'.setup = setupAfter log.setup (e.steps (some log)) := by
  cases e with
  | record r => exact ⟨log, rfl, rfl⟩
  | notice text => exact ⟨log, rfl, rfl⟩
  | opened setup => exact ⟨{ setup }, rfl, rfl⟩
  | progress p =>
    refine ⟨log.after p, rfl, ?_⟩
    have hsetup : (log.after p).setup = log.setup := by cases p <;> rfl
    rw [hsetup]
    exact (setupAfter_map_log log.setup id (log.logged p)).symm

/-- A row of events is a row of steps of the logging. -/
theorem wrote_hearAll (l : Logging) (log : ProgressLog) (h : l.handlers = log.setup.handlers)
    (hlog : l.current = some log) (events : List Event) :
    Wrote l (l.hearAll events) (emissions log.setup (Event.stepsOf (some log) events)) := by
  induction events generalizing l log with
  | nil => exact .refl l
  | cons e events ih =>
    obtain ⟨log', hforce, hsetup⟩ := exists_inForce log e
    obtain ⟨hhandlers, hsteps⟩ := wrote_follow h (e.steps (some log))
    have hhear : l.hear e = { l.follow (e.steps (some log)) with current := some log' } := by
      rw [hear, hlog, hforce]
    have hrest := ih (l.hear e) log' (by rw [hhear, hsetup]; exact hhandlers) (by rw [hhear])
    rw [Event.stepsOf, emissions_append, ← hsetup, hforce]
    exact (hhear ▸ hsteps.withCurrent (some log')).trans hrest

/-- So it is with what happens after a progress log is opened. -/
theorem wrote_hearAll_opened (l : Logging) (setup : LogSetup) (events : List Event) :
    Wrote l (l.hearAll (.opened setup :: events))
      (emissions setup (Event.stepsOf (some { setup }) events)) := by
  have hopened := (wrote_setUp l setup).withCurrent (some { setup })
  exact hopened.trans (wrote_hearAll (l.hear (.opened setup)) { setup }
    (handlers_setUp l setup) rfl events)

/-- A log file that is opened a second time is continued. -/
example : (({} : Logging).hearAll [.opened { logFile := some "a" },
      .record ⟨some "archiver", .debug, "x"⟩, .opened { logFile := some "a" },
      .notice "y"]).fileLines "t" "a" =
    ["t - daily_note_mover.archiver - DEBUG - x", "t - daily_note_mover.notice - INFO - y", ""] := by
  decide +kernel

end Logging

end NoteArchive
