import NoteArchive.Archive.Decision
import NoteArchive.DateFormat.Reading
import NoteArchive.Settings.Basic

/-!
# The plan of a batch

What happens to each note is decided from its name, its path, the settings and the day; no file is
touched.

* `destinationFor`: where a note of a date goes.
* `isCandidate`: the name of a file matches the format.
* `Batch.verdict`: what happens to a note.  Notes that have no date, notes of the day, and notes
  in the target folder stay; all others go.
* `Batch.plan`: the decisions for the candidates among some files.
-/

namespace NoteArchive

/-- Where a note of a date goes: into the target folder, and there into the folders of the year and
the month if these are in use. -/
def destinationFor (note : Note) (date : Date) (settings : Settings) : String :=
  settings.targetFolder ++ "/" ++
    (if settings.useSubfolders then
      toString date.year ++ "/" ++ String.ofList (Date.padded 2 date.month) ++ "/"
    else "") ++ note.name

/-- A file is a candidate when its extension is `md` and its name matches the format. -/
def isCandidate (format : Compiled) (note : Note) : Bool :=
  note.extension = "md" && format.isMatch note.name

/-- What the decisions of a batch depend on: the settings, the format, and the day whose notes
stay. -/
structure Batch where
  settings : Settings
  format : Compiled
  today : Date

namespace Batch

/-- What happens to a note. -/
def verdict (b : Batch) (note : Note) : Verdict :=
  match b.format.readDate note.stem with
  | .error _ => .skip .unparseable
  | .ok date =>
    if date = b.today then .skip .sameDay
    else if isUnderFolder note.path b.settings.targetFolder then .skip .alreadyArchived
    else .move (destinationFor note date b.settings)

/-- A note and what happens to it. -/
def decision (b : Batch) (note : Note) : Decision := ⟨note, b.verdict note⟩

def record (level : Level) (text : String) : Record := ⟨"archiver", level, text⟩

def verdictLog (b : Batch) (note : Note) : List Record :=
  readingLog (b.format.readDate note.stem) ++
    match b.verdict note with
    | .skip .sameDay => [record .debug ("今日の日付のためスキップ: " ++ note.name)]
    | .skip .alreadyArchived => [record .debug ("アーカイブ済みのためスキップ: " ++ note.path)]
    | _ => []

def candidates (b : Batch) (notes : List Note) : List Note := notes.filter (isCandidate b.format)

/-- The decisions for the candidates among some files. -/
def plan (b : Batch) (notes : List Note) : List Decision := (b.candidates notes).map b.decision

def planLog (b : Batch) (notes : List Note) : List Record :=
  (b.candidates notes).flatMap b.verdictLog

end Batch

end NoteArchive
