import NoteArchive.Settings.Basic

/-!
# Drafts of settings

A draft is what is asked for as settings, before anything is checked: each field may hold any value.

* `Settings.Draft`: a draft.
* `Draft.targetText?`: the target folder, if it is a text at all.
* `Draft.validated?`: the draft with a target folder and a format that can be used.  It fails where
  the target folder is no text; the format is replaced then, and the switches stay as they are.
-/

namespace NoteArchive.Settings

/-- What is asked for as settings. -/
structure Draft where
  targetFolder : Json
  showSummary : Json
  dateFormat : Json
  useSubfolders : Json

namespace Draft

/-- The target folder, if it is a text. -/
def targetText? (d : Draft) : Option Text.Wide :=
  match d.targetFolder with
  | .text folder => some folder
  | _ => none

/-- The format that is used where a value is asked for. -/
def resolveFormat : Json → Text.Wide
  | .text format => DateFormat.resolveWide format
  | _ => DateFormat.usual

/-- What the log says about the choice of the format. -/
def resolveFormatLog : Json → List Record
  | .text format => DateFormat.resolveLog format
  | v => [DateFormat.replacedRecord v.shown]

/-- A draft that can be used, if its target folder is a text. -/
def validated? (d : Draft) : Option Draft :=
  d.targetText?.map fun folder =>
    { d with
      targetFolder := .text (Raw.resolveTarget folder)
      dateFormat := .text (resolveFormat d.dateFormat) }

def validatedLog (d : Draft) : List Record :=
  match d.targetText? with
  | none => []
  | some folder => Raw.resolveTargetLog folder ++ resolveFormatLog d.dateFormat

end Draft

end NoteArchive.Settings
