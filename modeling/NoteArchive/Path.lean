import NoteArchive.Text.Split

/-!
# Paths

A path is a text in which slashes separate the names of folders.

* `Path`: the slashes in front that make a path absolute, and the names.  Empty names and single
  points mean nothing and are left out; two points stay.
* `Path.text`: the path written in one way, with single slashes.
* `Path.isInside`: a relative path without a step up, which cannot leave the folder that it
  starts from.
* `Path.steps`: the texts of the folders on the way to a path.
-/

namespace NoteArchive

/-- A path.  `mark` is empty for a relative path, and else the slashes in front: one, or exactly
two where two were written. -/
structure Path where
  mark : String
  parts : List String
  deriving Repr, DecidableEq

namespace Path

/-- The names in a text between its slashes, without empty names and single points. -/
def components (s : List Char) : List String :=
  ((Text.splitOn '/' s).filter fun p => p ≠ [] ∧ p ≠ ['.']).map String.ofList

/-- The slashes in front that count. -/
def markOf (s : List Char) : String :=
  match (s.takeWhile (· = '/')).length with
  | 0 => ""
  | 2 => "//"
  | _ => "/"

def ofString (s : String) : Path := ⟨markOf s.toList, components s.toList⟩

/-- The text of a path; a relative path without names is a point. -/
def text (p : Path) : String :=
  if p.parts = [] then (if p.mark = "" then "." else p.mark)
  else p.mark ++ "/".intercalate p.parts

/-- The path with more names at its end. -/
def join (p : Path) (names : List String) : Path := ⟨p.mark, p.parts ++ names⟩

/-- The folder of a path.  Where there is no name to leave out it is the path itself. -/
def parent (p : Path) : Path := ⟨p.mark, p.parts.dropLast⟩

/-- The last name of a path, or nothing. -/
def name (p : Path) : String := p.parts.getLast?.getD ""

/-- A relative path without a step up. -/
def isInside (p : Path) : Bool := p.mark = "" && !p.parts.contains ".."

/-- The rows of names that begin with `done` and take one name more at a time. -/
def stepsFrom (done : List String) : List String → List (List String)
  | [] => []
  | name :: rest => (done ++ [name]) :: stepsFrom (done ++ [name]) rest

/-- The texts of the folders on the way to a path, the path itself last.  The slashes in front are
a step of their own. -/
def steps (p : Path) : List String :=
  (if p.mark = "" then [] else [p.mark]) ++
    (stepsFrom [] p.parts).map fun names => (Path.mk p.mark names).text

end Path

/-- A path with a null character is no path to the system. -/
def hasNull (text : String) : Bool := text.toList.contains '\x00'

/-- A text is a path that stays inside the vault. -/
def isVaultRelative (path : String) : Bool := (Path.ofString path).isInside

/-- A path lies under a folder: it begins with the folder, without slashes at its end, and a
slash. -/
def isUnderFolder (path folder : String) : Bool :=
  let stripped := (folder.toList.reverse.dropWhile (· = '/')).reverse
  (stripped ++ ['/']).isPrefixOf path.toList

end NoteArchive
