import NoteArchive.Json.Reader
import NoteArchive.Settings.Draft
import NoteArchive.Vault

/-!
# The settings file

The settings of a vault are in a file of the vault, as a JSON object.

* `Vault.settingsFile`: where the file is, and `Vault.settingsFolder`: its folder.
* `Settings.fileBytes`: the content of the file for given settings; `Raw.fileBytes?`: the same for
  settings with halves of characters, which have no such content.
* `Settings.ofBytes`: the settings that a content writes.  A content that is not the text of a JSON
  object stands for the usual settings; only bytes that are no UTF-8, and texts beyond the limits
  of the reader, are a failure.
* `Vault.loadSettings`, `Vault.saveSettings`: the file is read and written.
* `Vault.settleSettings`, `Vault.adoptSettings`: the same with settings that can be used.
-/

namespace NoteArchive

/-- Settings from a file, with what the log says about them. -/
structure Loaded where
  raw : Settings.Raw
  log : List Record
  deriving Repr, DecidableEq

/-- The settings that were read, with another character for each half. -/
def Loaded.settings (loaded : Loaded) : Settings := loaded.raw.stand

namespace Settings

/-- A record about the settings file. -/
def fileRecord (level : Level) (text : String) : Record := ⟨"config", level, text⟩

/-- The content of the settings file. -/
def fileBytes (s : Settings) : List UInt8 := Text.Utf8.encode s.raw.toJson.indented

/-- The content of the settings file, or where a text cannot be encoded the part of it before this
text. -/
def Raw.fileBytes? (r : Raw) : Except Json.Cut (List UInt8) :=
  Json.writePieces (Json.pieces 0 [] r.toJson)

/-- The usual settings, where there is no settings file. -/
def absent (path : String) : Loaded :=
  ⟨usual, [fileRecord .debug ("設定ファイルなし、デフォルト設定を使用: " ++ path)]⟩

/-- The usual settings, where the settings file cannot be read. -/
def unreadable (path reason : String) : Loaded :=
  ⟨usual, [fileRecord .error ("設定読み込みエラー、デフォルト設定を使用: " ++ path ++ " - " ++ reason)]⟩

/-- The usual settings, where the settings file holds no object. -/
def noObject (path : String) : Loaded :=
  ⟨usual, [fileRecord .error ("設定ファイルの形式が不正です、デフォルト設定を使用: " ++ path)]⟩

/-- The settings in the fields of the object that the settings file holds. -/
def ofObject (fields : List (Text.Wide × Json)) : Loaded :=
  ⟨.ofFields fields, Raw.ofFieldsLog fields ++
    [fileRecord .debug ("設定を読み込みました: " ++ (Raw.ofFields fields).shown)]⟩

/-- The settings in the text of the file at `path`.  A reading that lies in `around` operations can
go down by as many levels less. -/
def ofText (path : String) (s : List Char) (around : Nat := 0) : Except Failure Loaded :=
  match Json.read (Text.unixNewlines s) (Json.nestingLimit - around) with
  | .ok (.object fields) => .ok (ofObject fields)
  | .ok _ => .ok (noObject path)
  | .error e => if e.fault.isLimit then .error (.limit e.fault) else .ok (unreadable path e.message)

/-- The settings in the content of the file at `path`, read in `around` operations. -/
def ofBytes (path : String) (bytes : List UInt8) (around : Nat := 0) : Except Failure Loaded :=
  match Text.Utf8.decode bytes with
  | .ok s => ofText path s around
  | .error e => .error (.notUtf8 e)

end Settings

namespace Vault

def settingsFolder (v : Vault) : Spot := v.spot [".daily_note_mover"]

def settingsFile (v : Vault) : Spot := v.spot [".daily_note_mover", "data.json"]

/-- The settings in the settings file on a disk, read in `around` operations. -/
def settingsOn (v : Vault) (d : Disk) (around : Nat := 0) : Except Failure Loaded := do
  let file := v.settingsFile
  if ← file.isThere d then
    match d.get? file.place with
    | some (.file bytes) => Settings.ofBytes file.text bytes around
    | _ => return Settings.unreadable file.text (file.refusal .isFolder).message
  else return Settings.absent file.text

/-- The settings of a vault, read in `around` operations. -/
def loadSettings (v : Vault) (around : Nat := 0) : Act Settings.Raw := do
  let w ← get
  let loaded ← Act.ofExcept (v.settingsOn w.disk around)
  tellAll loaded.log
  return loaded.raw

/-- The failure to write the settings file, because of what the system refused at a spot. -/
def unsaved (v : Vault) (s : Spot) (cause : SystemCause) : Failure :=
  .unsavedSettings v.settingsFile.text (s.refusal cause)

/-- Puts a content into the settings file, whose folder is made if it is missing. -/
def putSettings (v : Vault) (content : List UInt8) : Act Unit := do
  let file := v.settingsFile
  let w ← get
  unless w.disk.takesPath v.settingsFolder.text do
    throw (v.unsaved v.settingsFolder .nameTooLong)
  -- the vault itself may be missing too, and is made again then
  match w.disk.makeFolders v.settingsFolder.place with
  | .error r =>
    set { w with disk := r.disk }
    throw (v.unsaved (v.spot (r.names.drop v.place.length)) r.cause)
  | .ok disk =>
    set { w with disk }
    match file.change disk (disk.writeFile · content) with
    | .error cause => throw (v.unsaved file cause)
    | .ok disk => set { w with disk }

/-- Writes the settings file with a content. -/
def writeSettings (v : Vault) (content : List UInt8) : Act Unit := do
  v.putSettings content
  tell (.record (Settings.fileRecord .debug ("設定を保存しました: " ++ v.settingsFile.text)))

/-- Writes settings.  The file is begun before their texts are encoded, and ends before the first
one that cannot be. -/
def saveSettings (v : Vault) (r : Settings.Raw) : Act Unit := do
  match r.fileBytes? with
  | .ok content => v.writeSettings content
  | .error cut =>
    v.putSettings cut.written
    throw (.notEncodable cut.error)

/-- Writes settings as they can be used, which are the result. -/
def adoptSettings (v : Vault) (r : Settings.Raw) : Act Settings.Raw := do
  tellAll r.validatedLog
  v.saveSettings r.validated
  return r.validated

/-- The settings of a vault as they can be used.  They are written back, so that the file is there
and holds nothing else; when the system refuses this the user is told.  This is an operation around
the reading too.  No half of a character is in the result: it would come from a file, which the
system does not refuse then, and it cannot be encoded. -/
def settleSettings (v : Vault) (around : Nat := 0) : Act Settings := do
  let r ← v.loadSettings (around + 1)
  tellAll r.validatedLog
  match ← Act.attempt (v.saveSettings r.validated) with
  | .ok _ => return r.validated.stand
  | .error (.unsavedSettings path e) =>
    notify ("設定を保存できませんでした: " ++ (Failure.unsavedSettings path e).message)
    return r.validated.stand
  | .error e => throw e

end Vault

end NoteArchive
