import NoteArchive.Note
import NoteArchive.World

/-!
# Vaults

A vault is a folder with notes.  Its operations take paths that are relative to it, and refuse
those that could leave it.

* `Vault.resolve`: the place and the path of a file of the vault.
* `Vault.isThere`, `Vault.makeFolder`, `Vault.move`: whether something is there, and changes.
* `Vault.notesOn`: all files of the vault on a disk, without those in hidden folders, in the order
  of their paths; `Vault.lookedAt`: the paths at which one looks for them; `Vault.notes`: the
  listing as an operation, which fails where one of these paths is too long.
* `Vault.checkRoot`: the vault is a folder that may be read and written.
* `Vault.at?`: the vault at a path.
-/

namespace NoteArchive

/-- A vault: the path by which it is known, and its place on the disk. -/
structure Vault where
  path : Path
  place : Place
  deriving Repr, DecidableEq

namespace Vault

def text (v : Vault) : String := v.path.text

/-- A file or a folder of the vault: the path as it is shown, and the place. -/
structure Spot where
  text : String
  place : Place
  deriving Repr, DecidableEq

/-- What names lead to in the vault. -/
def spot (v : Vault) (names : List String) : Spot :=
  ⟨(v.path.join names).text, v.place ++ names⟩

/-- What a path leads to in the vault, if it cannot leave it. -/
def resolve (v : Vault) (path : String) : Except Failure Spot :=
  if isVaultRelative path then .ok (v.spot (Path.ofString path).parts)
  else .error (.file (.outsideVault path))

/-- The refusal of the system at a spot. -/
def Spot.refusal (s : Spot) (cause : SystemCause) : SystemError := ⟨cause, s.text, none⟩

/-- The search for a spot, which ends at once if the path is too long as a whole. -/
def Spot.lookup (s : Spot) (d : Disk) : Lookup :=
  if d.takesPath s.text then d.lookup s.place else .nameTooLong

/-- A change of a disk at a spot, which is refused at once if the path is too long as a whole. -/
def Spot.change (s : Spot) (d : Disk) (f : Place → Except SystemCause Disk) :
    Except SystemCause Disk :=
  if d.takesPath s.text then f s.place else .error .nameTooLong

/-- What is there: nothing is under a file, and what is too long is refused. -/
def Spot.entry? (s : Spot) (d : Disk) : Except Failure (Option Entry) :=
  if hasNull s.text then .ok none
  else match s.lookup d with
    | .found e => .ok (some e)
    | .missing => .ok none
    | .notFolder => .ok none
    | .nameTooLong => .error (.system (s.refusal .nameTooLong))

def Spot.isThere (s : Spot) (d : Disk) : Except Failure Bool := (s.entry? d).map (·.isSome)

def Spot.isFolder (s : Spot) (d : Disk) : Except Failure Bool :=
  (s.entry? d).map (· = some .folder)

def isThere (v : Vault) (path : String) : Act Bool := do
  let s ← Act.ofExcept (v.resolve path)
  let w ← get
  Act.ofExcept (s.isThere w.disk)

/-- Makes a folder, whose own folder has to be there. -/
def makeFolder (v : Vault) (path : String) : Act Unit := do
  interrupt .makeFolder
  let s ← Act.ofExcept (v.resolve path)
  if hasNull s.text then throw .nullCharacter
  let w ← get
  match s.change w.disk w.disk.makeFolder with
  | .ok disk =>
    set { w with disk }
    tell (.record ⟨"vault", .debug, "フォルダを作成: " ++ path⟩)
  | .error .missing => throw (.file (.noParent path))
  | .error .alreadyExists => throw (.file (.folderExists path))
  | .error cause => throw (.file (.folderRefused path (s.refusal cause)))

/-- The system moves what is at `source` to `target`. -/
def systemMove (source target : Spot) : Act Unit := do
  match ← takeTurn .systemMove with
  | some i =>
    match i.sort with
    | .denied => throw (.file (.moveDenied i.text))
    | .system => throw (.file (.moveRefused i.text))
    | _ => throw (.intrusion i)
  | none =>
    -- the system takes no path with a null character, and refuses it before it looks at the disk
    if hasNull source.text ∨ hasNull target.text then throw .nullCharacter
    let w ← get
    match w.disk.move source.place target.place with
    | .ok disk => set { w with disk }
    | .error cause =>
      throw (.file (.moveRefused (SystemError.message ⟨cause, source.text, some target.text⟩)))

/-- Moves a file to another path, where there must be nothing yet in a folder that is there.  The
moved file keeps its extension. -/
def move (v : Vault) (note : Note) (target : String) : Act Note := do
  interrupt .move
  let source ← Act.ofExcept (v.resolve note.path)
  let goal ← Act.ofExcept (v.resolve target)
  let w ← get
  -- of several things that are wrong the first one in this order is told
  unless ← Act.ofExcept (source.isThere w.disk) do throw (.file .noSource)
  if ← Act.ofExcept (goal.isThere w.disk) then throw (.file .targetTaken)
  let above := v.spot (Path.ofString target).parts.dropLast
  unless ← Act.ofExcept (above.isFolder w.disk) do throw (.file .noTargetFolder)
  systemMove source goal
  tell (.record ⟨"vault", .debug, "移動成功: " ++ note.path ++ " -> " ++ target⟩)
  return ⟨(Path.ofString target).name, target, note.extension⟩

/-! ### The files of a vault -/

/-- A folder is hidden when its name begins with a point. -/
def isHidden (name : String) : Bool := name.toList.head? = some '.'

/-- The file at `names` in a vault, unless one of its folders is hidden. -/
def noteAt (names : Place) (e : Entry) : Option Note :=
  match e, names.getLast? with
  | .file _, some name =>
    if names.dropLast.any isHidden then none
    else some (.ofPath name ("/".intercalate names))
  | _, _ => none

/-- The files of the vault on a disk, in the order of their paths. -/
def notesOn (v : Vault) (d : Disk) : List Note :=
  ((d.under v.place).filterMap fun (names, e) => noteAt names e).mergeSort
    fun a b => decide (a.path ≤ b.path)

/-- The listing goes into every folder, and it asks of what lies below no hidden folder whether it
is a file. -/
def isLookedAt (names : Place) (e : Entry) : Bool :=
  e = .folder || !names.dropLast.any isHidden

/-- The spots of the vault at which the listing looks. -/
def lookedAt (v : Vault) (d : Disk) : List Spot :=
  v.spot [] ::
    ((d.under v.place).filter fun (names, e) => isLookedAt names e).map fun (names, _) =>
      v.spot names

/-- The files of the vault, if the system takes all paths at which the listing looks.  Of several
that it does not take one is told; the order in which they come up is that of the system. -/
def notes (v : Vault) : Act (List Note) := do
  interrupt .listing
  let w ← get
  match (v.lookedAt w.disk).find? fun s => !w.disk.takesPath s.text with
  | some s => throw (.system (s.refusal .nameTooLong))
  | none => return v.notesOn w.disk

/-- The vault is there, is a folder, and may be read and written. -/
def checkRoot (v : Vault) : Act Unit := do
  let w ← get
  unless ← Act.ofExcept ((v.spot []).isThere w.disk) do throw (.root v.text .missing)
  unless ← Act.ofExcept ((v.spot []).isFolder w.disk) do throw (.root v.text .notFolder)
  unless w.permitted do throw (.root v.text .denied)

/-- The vault at a path on a disk, where a relative path begins at `here`.  A path that leads
nowhere is that of a missing vault. -/
def at? (d : Disk) (here : Place) (text : String) : Except Failure Vault :=
  let path := Path.ofString text
  let missing : Failure := .root path.text .missing
  let tooLong : Failure := .system ⟨.nameTooLong, path.text, none⟩
  let start : Place := if path.mark = "" then here else []
  if hasNull path.text then .error missing
  else if !d.takesPath path.text then .error tooLong
  else match d.walk start path.parts with
    | .ok place => .ok ⟨path, place⟩
    | .error .nameTooLong => .error tooLong
    | .error _ => .error missing

end Vault

end NoteArchive
