import NoteArchive.Text.Split
import NoteArchive.Text.Wide

/-!
# Log records

* `Level`: how serious a record is.
* `Record`: a line or more of text with its level and the part of the program that wrote it.
* `Record.loggers`: the loggers that a record passes on its way up to that of the program.
* `Record.fileLine`: a record as the log file shows it.

The text of a record may hold halves of characters.
-/

namespace NoteArchive

/-- How serious a record is: a number, of which the greater one is the more serious one. -/
structure Level where
  rank : Int
  deriving Repr, DecidableEq

namespace Level

def unset : Level := ⟨0⟩

def debug : Level := ⟨10⟩

def info : Level := ⟨20⟩

def warning : Level := ⟨30⟩

def error : Level := ⟨40⟩

def critical : Level := ⟨50⟩

/-- The levels that have a name. -/
def named : List (Level × String) :=
  [(unset, "NOTSET"), (debug, "DEBUG"), (info, "INFO"), (warning, "WARNING"), (error, "ERROR"),
   (critical, "CRITICAL")]

/-- The name of a level; one without a name is called by its number. -/
def name (l : Level) : String :=
  match named.find? fun n => n.1 = l with
  | some (_, name) => name
  | none => "Level " ++ toString l.rank

def ofName? (s : String) : Option Level := (named.find? fun n => n.2 = s).map (·.1)

end Level

/-- A log record.  The source is the part of the program that wrote it; the progress log itself
has none. -/
structure Record where
  source : Option String
  level : Level
  text : Text.Wide
  deriving Repr, DecidableEq

namespace Record

/-- The name under which the records of the program stand. -/
def programName : String := "daily_note_mover"

/-- The name of the program, and after a point that of the source. -/
def origin (r : Record) : String :=
  match r.source with
  | none => programName
  | some source => programName ++ "." ++ source

/-- A logger: the parts of its name between the points, the last one first.  What is left without
the first of these is the logger above it. -/
abbrev Logger := List String

/-- The logger of the program, which is above all others. -/
def programLogger : Logger := [programName]

/-- The logger of the source of a record. -/
def logger (r : Record) : Logger :=
  match r.source with
  | none => programLogger
  | some source => (Text.splitOn '.' source.toList).reverse.map String.ofList ++ programLogger

/-- A logger and those above it. -/
def loggersFrom : Logger → List Logger
  | [] => []
  | name :: above => (name :: above) :: loggersFrom above

/-- The loggers that a record passes on its way up. -/
def loggers (r : Record) : List Logger := loggersFrom r.logger

/-- The record is at least as serious as `l`. -/
def passes (r : Record) (l : Level) : Bool := l.rank ≤ r.level.rank

/-- The record with its level in front. -/
def line (r : Record) : Text.Wide := Text.wide (r.level.name ++ " ") ++ r.text

/-- The record as the log file shows it, under the time `stamp`. -/
def fileLine (stamp : String) (r : Record) : Text.Wide :=
  Text.wide (stamp ++ " - " ++ r.origin ++ " - " ++ r.level.name ++ " - ") ++ r.text

end Record

end NoteArchive
