import NoteArchive.Archive.Run
import NoteArchive.Settings.Store

/-!
# Operations on a vault

An operation is the work of one command: it reads the settings, makes a batch of files of the
vault, runs it and tells the user.

* `Operation`: all notes are archived, or those in the folder of earlier times go to the target
  folder of today.
* `Operation.body`: the work itself.
* `Operation.run`: the work with its log.  A failure of the work is told to the user, and only a
  log that cannot be opened is a failure of the run.
-/

namespace NoteArchive

/-- What is done to the notes of a vault. -/
inductive Operation where
  | archive
  | relocate
  deriving Repr, DecidableEq

namespace Operation

def name : Operation → String
  | .archive => "アーカイブ"
  | .relocate => "再配置"

/-- What an operation does to a note, in messages. -/
def label : Operation → String
  | .archive => Batch.usualLabel
  | .relocate => "再配置"

/-- The files with which an operation is concerned. -/
def concerns : Operation → Note → Bool
  | .archive, _ => true
  | .relocate, note => isUnderFolder note.path Settings.legacyFolder

/-- The message at the end. -/
def summary (settings : Settings) (t : Tally) : Operation → Option String
  | .archive =>
    if settings.showSummary then
      some (s!"{t.found}件の{settings.dateFormat}形式のノートを発見: 移動 {t.moved}件, " ++
        s!"スキップ {t.skipped}件 (移動先: {settings.targetFolder})")
    else none
  | .relocate =>
    some s!"{t.moved}件のノートを {Settings.legacyFolder} から {settings.targetFolder} へ再配置しました"

/-! ### The log file -/

/-- The folder of the log files, from the home folder on. -/
def logFolder : List String := [".daily_note_mover", "logs"]

/-- The name of the log file of a run that begins at a moment. -/
def logFileName (m : Moment) : String := "daily_note_mover_" ++ m.stamp ++ ".log"

/-- The refusal of the system at a place of the home folder. -/
def logRefused (w : World) (place : Place) (cause : SystemCause) : Failure :=
  .system ⟨cause, (w.homePath.join (place.drop w.homePath.parts.length)).text, none⟩

/-- The place of a file in the folder of the log files. -/
def logPlace (w : World) (names : List String) : Place := w.homePath.parts ++ logFolder ++ names

/-- Writes more bytes at the end of a log file, whose folder is made if it is missing. -/
def appendLog (name : String) (more : List UInt8) : Act Unit := do
  let w ← get
  match w.home.makeFolders (logPlace w []) with
  | .error r =>
    set { w with home := r.disk }
    throw (logRefused w r.names r.cause)
  | .ok home =>
    set { w with home }
    let place := logPlace w [name]
    let old := match home.get? place with
      | some (.file bytes) => bytes
      | _ => []
    match home.writeFile place (old ++ more) with
    | .error cause => throw (logRefused w place cause)
    | .ok home => set { w with home }

/-- Opens the progress log of a run.  Where every file is shown there is also a log file, named for
the moment, which is made right away. -/
def openLog (verbose : Bool) : Act LogSetup := do
  if verbose then
    let name := logFileName (← readClock)
    appendLog name []
    let setup : LogSetup := ⟨.debug, .debug, some name, true⟩
    tell (.opened setup)
    return setup
  else
    let setup : LogSetup := {}
    tell (.opened setup)
    return setup

/-- Writes what a progress log made of the events from number `start` on to its log file.  What
cannot be written is lost. -/
def closeLog (setup : LogSetup) (start : Nat) : Act Unit := do
  match setup.logFile with
  | none => return ()
  | some name =>
    let w ← get
    let content := (Logging.hearAll {} (w.events.drop start)).fileBytes w.stamp name
    let _ ← Act.attempt (appendLog name content)

/-! ### The run -/

/-- The work of an operation; without `today` it is the day that the clock shows.  The settings are
read in the operation, in its run, and in the operations `around` it. -/
def body (op : Operation) (v : Vault) (today : Option Date) (around : Nat := 0) : Act Tally := do
  v.checkRoot
  let settings ← v.settleSettings (around + 2)
  tellProgress (.started op.name (← readClock) v.text settings)
  tellAll (DateFormat.compileResolvedLog settings.dateFormat)
  let format := DateFormat.compileResolved settings.dateFormat
  tellProgress (.noted ("正規表現: " ++ format.pattern))
  let notes := (← v.notes).filter op.concerns
  tellProgress (.informed s!"ファイルをスキャン: {notes.length}個")
  -- the day is read after the start was told, and without moving the clock on
  let batch : Batch := ⟨settings, format, today.getD (← get).clock.today⟩
  let t ← batch.run v op.label notes
  tellProgress (.completed op.name (← readClock) t.report)
  match op.summary settings t with
  | none => return t
  | some text =>
    notify text
    return t

/-- The result of the work, where a failure is told to the user and leaves no result. -/
def settle (op : Operation) (v : Vault) (r : Except Failure Tally) : Act (Option Tally) := do
  match r with
  | .ok t => return some t
  | .error e =>
    tellProgress (.failed v.text (op.name ++ "処理エラー: " ++ e.message) (some e))
    notify ("ノートの" ++ op.label ++ "中にエラーが発生しました: " ++ e.message)
    return none

/-- A run of an operation.  The messages are those of this run alone. -/
def run (op : Operation) (v : Vault) (today : Option Date) (verbose : Bool)
    (around : Nat := 0) : Act (Option Tally) := do
  clearNotices
  let start := (← get).events.length
  -- here a failure is one of the run: there is no log yet that could tell it
  let setup ← openLog verbose
  let r ← Act.attempt (op.body v today around)
  let result ← op.settle v r
  closeLog setup start
  return result

end Operation

end NoteArchive
