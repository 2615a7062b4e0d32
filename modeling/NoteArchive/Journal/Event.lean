import NoteArchive.Archive.Decision
import NoteArchive.Calendar.Moment
import NoteArchive.Failure
import NoteArchive.Settings.Basic

/-!
# Events

What happens during an operation is told as a row of events, from which the log, the messages to
the user and the display of the progress are made.

* `ProgressEvent`: what only the progress log is told.
* `Event`: a log record, a message to the user, the opening of a progress log, or an event for it.
* `Logged`: a record as it is logged, with the failure whose trace stands below it.
* `ProgressLog.logged`: what a progress log logs of an event.
* `Event.records`: the records of an event where there is no progress log.
-/

namespace NoteArchive

/-- What a summary says about an operation: four counts, as they are written, and the errors. -/
structure Report where
  found : String
  moved : String
  skipped : String
  failed : String
  errors : List (String × String)
  deriving Repr, DecidableEq

/-- What a progress log is told. -/
inductive ProgressEvent where
  | started (operation : String) (now : Moment) (vault : String) (settings : Settings)
  | found (path : String)
  | skipped (path : String) (reason : Option SkipReason)
  | completed (operation : String) (now : Moment) (report : Report)
  | failed (path message : String) (cause : Option Failure)
  | warned (text : String)
  | informed (text : String)
  | noted (text : String)

/-- How a progress log is set up: the least levels of the records on the console and in the log
file, the log file if there is one, and whether every file is shown. -/
structure LogSetup where
  consoleLevel : Level := .info
  fileLevel : Level := .debug
  logFile : Option String := none
  verbose : Bool := false
  deriving Repr, DecidableEq

/-- What happens during an operation. -/
inductive Event where
  | record (r : Record)
  | notice (text : String)
  | opened (setup : LogSetup)
  | progress (p : ProgressEvent)

/-! ### What a progress log logs -/

/-- A record as it is logged.  Where there is a cause, the trace of that failure stands below the
record. -/
structure Logged where
  record : Record
  cause : Option Failure := none
  deriving Repr, DecidableEq

/-- Why a file is skipped, in words. -/
def skipLabel : Option SkipReason → String
  | none => "None"
  | some reason => reason.label

/-- A line that sets off a heading. -/
def ruler : String := String.ofList (List.replicate 60 '=')

def switchText (b : Bool) : String := if b then "有効" else "無効"

/-- What stands for the trace of a failure. -/
def traceMark : String := "<TRACEBACK>"

namespace Logged

/-- The trace below a record, if there is one. -/
def trace (x : Logged) : String := if x.cause.isSome then "\n" ++ traceMark else ""

/-- The text of a record with its trace. -/
def text (x : Logged) : Text.Wide := x.record.text ++ Text.wide x.trace

/-- A record with its trace as the log file shows them. -/
def fileLine (stamp : String) (x : Logged) : Text.Wide :=
  x.record.fileLine stamp ++ Text.wide x.trace

/-- The record can be written at all: there is no half of a character in it. -/
def isWritable (x : Logged) : Bool := (Text.plain? x.record.text).isSome

end Logged

/-- A progress log: how it is set up, and when the operation started. -/
structure ProgressLog where
  setup : LogSetup
  started : Option Moment := none
  deriving Repr, DecidableEq

namespace ProgressLog

/-- A record of the progress log, without a trace. -/
def line (level : Level) (text : String) : Logged := ⟨⟨none, level, text⟩, none⟩

/-- The record with the trace of a failure. -/
def traced (e : Failure) : Logged := ⟨⟨none, .debug, "スタックトレース:"⟩, some e⟩

/-- The text of a failure of a file. -/
def failureText (path message : String) (cause : Option Failure) : String :=
  "エラー - " ++ path ++ ": " ++ message ++
    match cause with
    | none => ""
    | some e => " (" ++ e.kind ++ ": " ++ e.message ++ ")"

def elapsed (log : ProgressLog) (now : Moment) : String :=
  match log.started with
  | none => Decimal.secondsText 0
  | some start => now.secondsSince start

/-- What is logged of the errors in a summary. -/
def errorLines (errors : List (String × String)) : List Logged :=
  if errors = [] then []
  else line .info "" :: line .info s!"エラー詳細 ({errors.length}件):" ::
    errors.map fun (path, message) => line .error ("  - " ++ path ++ ": " ++ message)

/-- The trace of a failure is only logged where there is a log file. -/
def traceLines (log : ProgressLog) (cause : Option Failure) : List Logged :=
  if log.setup.logFile.isSome then (cause.map traced).toList else []

/-- What a progress log logs of an event. -/
def logged (log : ProgressLog) : ProgressEvent → List Logged
  | .started operation now vault settings =>
    [ruler, "Daily Note Mover - " ++ operation ++ "開始", ruler, "開始時刻: " ++ now.text,
     "Vault: " ++ vault, "日付フォーマット: " ++ settings.dateFormat,
     "移動先フォルダ: " ++ settings.targetFolder,
     "年/月サブフォルダ: " ++ switchText settings.useSubfolders, ""].map (line .info)
  | .found path => if log.setup.verbose then [line .info ("一致: " ++ path)] else []
  | .skipped path reason =>
    [line (if log.setup.verbose then .info else .debug)
      ("スキップ (" ++ skipLabel reason ++ "): " ++ path)]
  | .completed operation now report =>
    ["", ruler, operation ++ "完了サマリー", ruler, "終了時刻: " ++ now.text,
     "総処理時間: " ++ log.elapsed now ++ "秒", "", "処理結果:",
     "  - 一致したノート: " ++ report.found, "  - 移動: " ++ report.moved,
     "  - スキップ: " ++ report.skipped, "  - 失敗: " ++ report.failed].map (line .info) ++
    errorLines report.errors ++ [line .info ruler]
  | .failed path message cause =>
    line .error (failureText path message cause) :: log.traceLines cause
  | .warned text => [line .warning ("警告: " ++ text)]
  | .informed text => [line .info text]
  | .noted text => [line .debug text]

/-- The progress log after an event: it keeps when the operation started. -/
def after (log : ProgressLog) : ProgressEvent → ProgressLog
  | .started _ now _ _ => { log with started := some now }
  | _ => log

end ProgressLog

/-- The record of a message to the user. -/
def noticeRecord (text : String) : Record := ⟨"notice", .info, text⟩

/-- The records of an event where there is no progress log.  Of its events only the failure of a
file is not lost. -/
def Event.records : Event → List Record
  | .record r => [r]
  | .notice text => [noticeRecord text]
  | .opened _ => []
  | .progress (.failed path message _) =>
    [⟨"archiver", .error, "ファイル移動エラー: " ++ path ++ " - " ++ message⟩]
  | .progress _ => []

end NoteArchive
