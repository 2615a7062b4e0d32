import NoteArchive.Archive.Folder
import NoteArchive.Archive.Plan

/-!
# Running a batch

* `Tally`: the counts of a batch and its errors.
* `Batch.move`: a note goes to its destination, whose folder is made.
* `Batch.step`: a note is looked at and moved if it has to go.  A note that cannot be moved is
  counted, and does not stop the batch.
* `Batch.run`: the notes of a batch, one after the other.
-/

namespace NoteArchive

/-- The counts of a batch, and the paths and the messages of its errors. -/
structure Tally where
  found : Nat := 0
  moved : Nat := 0
  skipped : Nat := 0
  failed : Nat := 0
  errors : List (String × String) := []
  deriving Repr, DecidableEq

namespace Tally

def addFound (t : Tally) : Tally := { t with found := t.found + 1 }

def addMoved (t : Tally) : Tally := { t with moved := t.moved + 1 }

def addSkipped (t : Tally) : Tally := { t with skipped := t.skipped + 1 }

def addFailed (t : Tally) (path message : String) : Tally :=
  { t with failed := t.failed + 1, errors := t.errors ++ [(path, message)] }

/-- The tally as a summary shows it. -/
def report (t : Tally) : Report :=
  ⟨toString t.found, toString t.moved, toString t.skipped, toString t.failed, t.errors⟩

def text (t : Tally) : String :=
  s!"発見={t.found}, 移動={t.moved}, スキップ={t.skipped}, 失敗={t.failed}"

end Tally

namespace Batch

/-- Moves a note to its destination, whose folder is made if it is missing. -/
def move (v : Vault) (note : Note) (destination : String) : Act Unit := do
  v.ensureFolder (Path.ofString destination).parent.text
  let _ ← v.move note destination
  tell (.record (record .debug ("移動成功: " ++ note.path ++ " -> " ++ destination)))

/-- What is told about a note that could not be moved: its message, and the cause if it is one
that a batch does not expect. -/
def blame (e : Failure) : String × Option Failure :=
  if e.isFileProblem then (e.message, none) else ("予期しないエラー: " ++ e.message, some e)

/-- A note that has to go to `destination`, where `label` names what is done to it. -/
def carryOut (v : Vault) (label : String) (t : Tally) (note : Note) (destination : String) :
    Act Tally := do
  match ← Act.attempt (move v note destination) with
  | .ok _ =>
    notify (note.name ++ " を " ++ destination ++ " に" ++ label ++ "しました")
    return t.addMoved
  | .error e =>
    -- what a batch expects is told by the mover, all else with its cause by the progress log
    if e.isFileProblem then
      tell (.record (record .error ("移動失敗: " ++ note.path ++ " - " ++ e.message)))
    let (message, cause) := blame e
    notify (note.name ++ " の" ++ label ++ "に失敗しました: " ++ message)
    tellProgress (.failed note.path message cause)
    return t.addFailed note.path message

/-- A note that stays. -/
def leave (t : Tally) (note : Note) (reason : SkipReason) : Act Tally := do
  tellProgress (.skipped note.path (some reason))
  if reason = .unparseable then
    notify (note.name ++ " の日付を解析できないためスキップしました")
  return t.addSkipped

/-- A file of the batch. -/
def step (b : Batch) (v : Vault) (label : String) (t : Tally) (note : Note) : Act Tally := do
  tell (.record (record .debug ("確認中: " ++ note.path)))
  if isCandidate b.format note then
    tellProgress (.found note.path)
    tellAll (b.verdictLog note)
    match b.verdict note with
    | .skip reason => leave t.addFound note reason
    | .move destination => carryOut v label t.addFound note destination
  else return t

/-- The files of the batch, after those that `t` counts. -/
def runFrom (b : Batch) (v : Vault) (label : String) : Tally → List Note → Act Tally
  | t, [] => return t
  | t, note :: rest => do
    let t ← b.step v label t note
    b.runFrom v label t rest

/-- What is done to the notes, if nothing else is said. -/
def usualLabel : String := "移動"

/-- The files of the batch.  The target folder is made first; if that fails, no file is looked
at. -/
def run (b : Batch) (v : Vault) (label : String) (notes : List Note) : Act Tally := do
  v.ensureFolder b.settings.targetFolder
  let t ← b.runFrom v label {} notes
  tell (.record (record .debug ("アーカイブ処理完了: " ++ t.text)))
  return t

end Batch

end NoteArchive
