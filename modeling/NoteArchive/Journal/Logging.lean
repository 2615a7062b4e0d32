import NoteArchive.Journal.Event
import NoteArchive.Text.Split
import NoteArchive.Text.Utf8

/-!
# Consoles and log files

All progress logs share the logger of the program.  What it has are handlers, and each of them
brings records to the console or to a log file.

* `Logging`: the progress log in force, the handlers, and what stands on the console and in the log
  files.
* `Logging.setUp`: a progress log takes the handlers away that are there, and puts its own ones in
  their place.  What a log file already holds stays.
* `Logging.emit`: a record goes up from its logger to that of the program, and each handler on this
  way takes it if it is serious enough.  A record with half a character in it is written nowhere.
* `Logging.hear`: the logging after an event, step by step.
* `Logging.consoleText`, `Logging.fileText`: what is written, and `Logging.fileLines`: the lines
  that a reader of a log file finds.
-/

namespace NoteArchive

/-- Where records are written. -/
inductive Sink where
  | console
  | file (name : String)
  deriving Repr, DecidableEq

/-- What brings records to a sink, from a level on. -/
structure Handler where
  sink : Sink
  level : Level
  deriving Repr, DecidableEq

/-- A log file: what it held when it was opened first, and what was logged to it since. -/
structure LogFile where
  before : List UInt8 := []
  logged : List Logged := []
  deriving Repr, DecidableEq

/-- The log file with more at its end. -/
def LogFile.append (f : LogFile) (more : List Logged) : LogFile :=
  { f with logged := f.logged ++ more }

/-- The progress log in force, the handlers of the program's logger, what is logged on the console,
and the log files. -/
structure Logging where
  current : Option ProgressLog := none
  handlers : List Handler := []
  console : List Logged := []
  files : List (String × LogFile) := []

/-- A step of the logging: a progress log is set up, or something is logged. -/
inductive LogStep where
  | setUp (setup : LogSetup)
  | log (x : Logged)

/-- What an event is to the logging, where `log` is the progress log in force. -/
def Event.steps (log : Option ProgressLog) : Event → List LogStep
  | .opened setup => [.setUp setup]
  | .progress p =>
    match log with
    | none => (Event.progress p).records.map fun r => .log ⟨r, none⟩
    | some log => (log.logged p).map .log
  | e => e.records.map fun r => .log ⟨r, none⟩

/-- The progress log in force after an event. -/
def Event.inForce (log : Option ProgressLog) : Event → Option ProgressLog
  | .opened setup => some { setup }
  | .progress p => log.map fun log => log.after p
  | _ => log

namespace Logging

/-! ### Log files -/

/-- The log file of a name; one that was never opened is empty. -/
def fileIn (name : String) : List (String × LogFile) → LogFile
  | [] => {}
  | (key, f) :: rest => if key = name then f else fileIn name rest

/-- The log files with more at the end of one; a log file that is not there is made. -/
def appendTo (name : String) (more : List Logged) :
    List (String × LogFile) → List (String × LogFile)
  | [] => [(name, ({} : LogFile).append more)]
  | (key, f) :: rest =>
    if key = name then (key, f.append more) :: rest else (key, f) :: appendTo name more rest

def file (l : Logging) (name : String) : LogFile := fileIn name l.files

/-! ### Setting up -/

/-- The handlers that are there are taken away, one after the other. -/
def takeHandlers (l : Logging) : Logging :=
  l.handlers.foldl (fun l h => { l with handlers := l.handlers.erase h }) l

def addHandler (l : Logging) (h : Handler) : Logging := { l with handlers := l.handlers ++ [h] }

/-- A log file is opened at its end. -/
def openFile (l : Logging) (name : String) : Logging :=
  { l with files := appendTo name [] l.files }

/-- The logging with the handlers of a progress log. -/
def setUp (l : Logging) (setup : LogSetup) : Logging :=
  let l := l.takeHandlers.addHandler ⟨.console, setup.consoleLevel⟩
  match setup.logFile with
  | none => l
  | some name => (l.openFile name).addHandler ⟨.file name, setup.fileLevel⟩

/-! ### Logging -/

/-- The logging with one more record at a sink. -/
def put (l : Logging) (x : Logged) : Sink → Logging
  | .console => { l with console := l.console ++ [x] }
  | .file name => { l with files := appendTo name [x] l.files }

/-- A record is written to a sink.  One that cannot be encoded is dropped. -/
def write (l : Logging) (x : Logged) (s : Sink) : Logging :=
  if x.isWritable then l.put x s else l

/-- A handler takes what is serious enough for it. -/
def handle (x : Logged) (l : Logging) (h : Handler) : Logging :=
  if x.record.passes h.level then l.write x h.sink else l

/-- The handlers of a logger.  Only that of the program has any. -/
def handlersOf (l : Logging) (logger : Record.Logger) : List Handler :=
  if logger = Record.programLogger then l.handlers else []

/-- A record goes up from its logger.  What is less serious than `debug` no logger takes. -/
def emit (l : Logging) (x : Logged) : Logging :=
  if x.record.passes .debug then
    (x.record.loggers.flatMap l.handlersOf).foldl (handle x) l
  else l

def step (l : Logging) : LogStep → Logging
  | .setUp setup => l.setUp setup
  | .log x => l.emit x

def follow (l : Logging) (steps : List LogStep) : Logging := steps.foldl step l

def hear (l : Logging) (e : Event) : Logging :=
  { l.follow (e.steps l.current) with current := e.inForce l.current }

def hearAll (l : Logging) (events : List Event) : Logging := events.foldl hear l

/-! ### What is written -/

/-- What is written of a text that can be encoded: the text and a line end. -/
def written? (t : Text.Wide) : Option String := (Text.plain? t).map (· ++ "\n")

/-- The text on the console: the texts of its records. -/
def consoleText (l : Logging) : String :=
  String.join (l.console.filterMap fun x => written? x.text)

/-- The text that was logged to a log file, where `stamp` stands for the time of each record. -/
def fileText (stamp name : String) (l : Logging) : String :=
  String.join ((l.file name).logged.filterMap fun x => written? (x.fileLine stamp))

/-- The content of a log file. -/
def fileBytes (stamp name : String) (l : Logging) : List UInt8 :=
  (l.file name).before ++ Text.Utf8.encode (l.fileText stamp name).toList

/-- The lines of what was logged to a log file.  A message is written as it is, so a carriage return
in it ends a line for the reader of the file, and the rest of the message is a line without a
time. -/
def fileLines (stamp name : String) (l : Logging) : List String :=
  (Text.lines (l.fileText stamp name).toList).map String.ofList

end Logging

end NoteArchive
