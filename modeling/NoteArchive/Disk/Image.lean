import NoteArchive.Failure
import NoteArchive.Path

/-!
# Disk images

The files and folders below a folder, written as the rows of a JSON array.

* `Disk.Row`: a path, with the content of a file, or without one for a folder.  The path of a
  folder ends in a slash.
* `Disk.rows`: the rows of what is below a folder, in the order of their paths.
* `Row.toJson`, `Row.ofJson`: a row as JSON.  A content is a text, or `{"hex": …}` where it is no
  UTF-8.
* `Disk.Work`: work on a disk that may fail halfway.
* `Disk.putRow`, `Disk.putRows`, `Disk.erase`: rows come to a disk, and something goes.
-/

namespace NoteArchive.Disk

/-- A path, with the content of a file, or without one for a folder. -/
structure Row where
  path : String
  content : Option (List UInt8)
  deriving Repr, DecidableEq

def rows (d : Disk) (base : Place) : List Row :=
  ((d.under base).map fun (names, e) =>
    match e with
    | .folder => ⟨"/".intercalate names ++ "/", none⟩
    | .file bytes => ⟨"/".intercalate names, some bytes⟩).mergeSort
      fun a b => decide (a.path ≤ b.path)

/-- The bytes that pairs of hexadecimal digits write. -/
def hexBytes : List Char → List UInt8
  | a :: b :: rest =>
    UInt8.ofNat (16 * (Json.hexValue? a).getD 0 + (Json.hexValue? b).getD 0) :: hexBytes rest
  | _ => []

/-- The name of the field for a content that is no text. -/
def hexName : String := "hex"

namespace Row

def toJson (r : Row) : Json :=
  .array [.text r.path, match r.content with
    | none => .null
    | some bytes =>
      match Text.Utf8.decode bytes with
      | .ok s => .text (String.ofList s)
      | .error _ =>
        let digits := bytes.flatMap fun b => Text.hexDigits 2 b.toNat
        .object [(hexName, .text (String.ofList digits))]]

/-- The row of a path with a content.  A file without content holds its own path. -/
def ofParts (path : String) (content : Json) : Row :=
  if path.endsWith "/" then ⟨path, none⟩
  else match content with
    | .text s => ⟨path, some (Text.Utf8.encode (Text.stand s).toList)⟩
    | .object fields =>
      match Json.lookup hexName fields with
      | some (.text s) => ⟨path, some (hexBytes (Text.stand s).toList)⟩
      | _ => ⟨path, some []⟩
    | _ => ⟨path, some (Text.Utf8.encode path.toList)⟩

/-- The row that a JSON array writes. -/
def ofJson : Json → Option Row
  | .array [.text path, content] => some (ofParts (Text.stand path) content)
  | .array [.text path] => some (ofParts (Text.stand path) .null)
  | _ => none

end Row

/-! ### Rows on a disk -/

/-- Work on a disk.  What was done before a failure stays done. -/
abbrev Work := ExceptT Failure (StateM Disk)

/-- A change along names from the root on, where two points go up.  The system looks at the text of
the path first. -/
def along (names : List String) (change : Disk → Except Refusal Disk) : Work Unit := do
  let textOf (names : List String) : String := (Path.mk "/" names).text
  let refused (cause : SystemCause) (names : List String) : Failure :=
    .system ⟨cause, textOf names, none⟩
  let text := textOf names
  if hasNull text then throw .nullCharacter
  let d ← get
  unless d.takesPath text do throw (refused .nameTooLong names)
  match change d with
  | .ok d => set d
  | .error r =>
    set r.disk
    throw (refused r.cause r.names)

/-- A change at the place that names lead to. -/
def alongTo (names : List String) (change : Disk → Place → Except SystemCause Disk) : Work Unit :=
  along names fun d =>
    (d.walk [] names >>= change d).mapError fun cause => ⟨cause, names, d⟩

/-- The names that lead to a path below a folder. -/
def namesBelow (base : Place) (path : String) : List String := base ++ (Path.ofString path).parts

/-- Puts a row on a disk, below a folder.  Missing folders are made, and a file that is there is
replaced. -/
def putRow (base : Place) (r : Row) : Work Unit := do
  let names := namesBelow base r.path
  match r.content with
  | none => along names (·.makeFoldersAlong names)
  | some bytes =>
    along names.dropLast (·.makeFoldersAlong names.dropLast)
    alongTo names (·.writeFile · bytes)

/-- Puts rows on a disk, below a folder. -/
def putRows (base : Place) (rs : List Row) : Work Unit := rs.forM (putRow base)

/-- Removes what a path below a folder leads to. -/
def erase (base : Place) (path : String) : Work Unit := alongTo (namesBelow base path) delete

/-- The disk after some work, if nothing in it failed. -/
def after (d : Disk) (work : Work Unit) : Except Failure Disk :=
  match work.run.run d with
  | (.ok (), d) => .ok d
  | (.error e, _) => .error e

end NoteArchive.Disk
