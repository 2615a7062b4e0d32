import NoteArchive.Note

/-!
# Decisions

* `SkipReason`: why a note stays where it is.
* `Verdict`: a note goes to a destination, or stays for a reason.
* `Decision`: a note with its verdict.
-/

namespace NoteArchive

/-- Why a note stays where it is. -/
inductive SkipReason where
  | alreadyArchived
  | sameDay
  | unparseable
  /-- A reason that is known only by its name. -/
  | other (name : String)
  deriving Repr, DecidableEq

namespace SkipReason

def name : SkipReason → String
  | .alreadyArchived => "already-archived"
  | .sameDay => "same-day"
  | .unparseable => "unparseable"
  | .other name => name

def ofName (name : String) : SkipReason :=
  (([alreadyArchived, sameDay, unparseable].find? fun r => r.name == name)).getD (.other name)

def label : SkipReason → String
  | .alreadyArchived => "アーカイブ済み"
  | .sameDay => "今日の日付"
  | .unparseable => "日付を解析できない"
  | .other name => name

end SkipReason

/-- What happens to a note. -/
inductive Verdict where
  | move (destination : String)
  | skip (reason : SkipReason)
  deriving Repr, DecidableEq

namespace Verdict

def destination? : Verdict → Option String
  | .move destination => some destination
  | .skip _ => none

def reason? : Verdict → Option SkipReason
  | .move _ => none
  | .skip reason => some reason

def isMove (v : Verdict) : Bool := v.destination?.isSome

end Verdict

/-- A note and what happens to it. -/
structure Decision where
  note : Note
  verdict : Verdict
  deriving Repr, DecidableEq

end NoteArchive
