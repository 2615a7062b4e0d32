import NoteArchive.DateFormat.Check
import NoteArchive.Json.Writer
import NoteArchive.Path
import NoteArchive.Text.Blank

/-!
# Settings

* `Settings`: where notes go, what their names look like, and two switches.
* `Settings.Raw`: the same as a file may give it, where the two texts may hold halves of characters.
  `Settings.raw` and `Raw.stand` lead from the one to the other.
* `Raw.validated`: the settings with a folder inside the vault and a format that can be used.
* `Raw.ofFields`, `Raw.toJson`: settings from and to the fields of a JSON object.

Each of these that has something to say comes with a function for what the log says, of the same
name with `Log`.  `Settings.validated` and its like are what these come to where no character is
halved.
-/

namespace NoteArchive

open Text (Wide wide)

/-- The settings. -/
@[ext]
structure Settings where
  targetFolder : String := "Old Daily Notes"
  showSummary : Bool := true
  dateFormat : String := DateFormat.usual
  useSubfolders : Bool := false
  deriving Repr, DecidableEq

namespace Settings

def usual : Settings := {}

/-- The folder where notes went before a folder could be chosen. -/
def legacyFolder : String := "Old Daily Notes"

/-- Settings as a file may give them. -/
@[ext]
structure Raw where
  targetFolder : Wide
  showSummary : Bool
  dateFormat : Wide
  useSubfolders : Bool
  deriving Repr, DecidableEq

/-- Settings as a file gives them. -/
def raw (s : Settings) : Raw where
  targetFolder := wide s.targetFolder
  showSummary := s.showSummary
  dateFormat := wide s.dateFormat
  useSubfolders := s.useSubfolders

instance : Coe Settings Raw := ⟨raw⟩

/-- The settings with another character for each half. -/
def Raw.stand (r : Raw) : Settings where
  targetFolder := Text.stand r.targetFolder
  showSummary := r.showSummary
  dateFormat := Text.stand r.dateFormat
  useSubfolders := r.useSubfolders

section Fields

variable (s : Settings) (r : Raw)

@[simp]
theorem targetFolder_raw : s.raw.targetFolder = wide s.targetFolder := rfl

@[simp]
theorem showSummary_raw : s.raw.showSummary = s.showSummary := rfl

@[simp]
theorem dateFormat_raw : s.raw.dateFormat = wide s.dateFormat := rfl

@[simp]
theorem useSubfolders_raw : s.raw.useSubfolders = s.useSubfolders := rfl

@[simp]
theorem Raw.targetFolder_stand : r.stand.targetFolder = Text.stand r.targetFolder := rfl

@[simp]
theorem Raw.showSummary_stand : r.stand.showSummary = r.showSummary := rfl

@[simp]
theorem Raw.dateFormat_stand : r.stand.dateFormat = Text.stand r.dateFormat := rfl

@[simp]
theorem Raw.useSubfolders_stand : r.stand.useSubfolders = r.useSubfolders := rfl

end Fields

@[simp]
theorem stand_raw (s : Settings) : s.raw.stand = s := by
  simp [raw, Raw.stand]

theorem raw_inj {s s' : Settings} : s.raw = s'.raw ↔ s = s' :=
  ⟨fun h => by rw [← s.stand_raw, h, s'.stand_raw], congrArg raw⟩

/-! ### Validation -/

namespace Raw

/-- A target folder without the blanks around it, and then without the slashes around it; the
usual folder if nothing is left. -/
def trimTarget (folder : Wide) : Wide :=
  let t := Text.trim (·.stand = '/') (Text.trim (Text.isBlank ·.stand) folder)
  if t = [] then wide usual.targetFolder else t

/-- The target folder that is used where `folder` is asked for; one outside the vault is not. -/
def resolveTarget (folder : Wide) : Wide :=
  if isVaultRelative (Text.stand (trimTarget folder)) then trimTarget folder
  else wide usual.targetFolder

/-- Settings that can be used. -/
def validated (r : Raw) : Raw :=
  { r with
    targetFolder := resolveTarget r.targetFolder
    dateFormat := DateFormat.resolveWide r.dateFormat }

/-- What the log says about the choice of the target folder. -/
def resolveTargetLog (folder : Wide) : List Record :=
  if isVaultRelative (Text.stand (trimTarget folder)) then []
  else [⟨"config", .warning, "Vault外を指す移動先フォルダは使用できません: " ++
    Text.quoted (trimTarget folder) ++ "、" ++ usual.targetFolder ++ " を使用します"⟩]

def validatedLog (r : Raw) : List Record :=
  resolveTargetLog r.targetFolder ++ DateFormat.resolveLog r.dateFormat

end Raw

@[inherit_doc Raw.trimTarget]
def trimTarget (folder : String) : String := Text.stand (Raw.trimTarget folder)

@[inherit_doc Raw.resolveTarget]
def resolveTarget (folder : String) : String := Text.stand (Raw.resolveTarget folder)

@[inherit_doc Raw.validated]
def validated (s : Settings) : Settings := s.raw.validated.stand

/-! ### Fields -/

/-- The names of the settings in a file. -/
def targetFolderName : String := "target_folder"

@[inherit_doc targetFolderName]
def showSummaryName : String := "show_summary_notification"

@[inherit_doc targetFolderName]
def dateFormatName : String := "date_format"

@[inherit_doc targetFolderName]
def useSubfoldersName : String := "use_year_month_subfolders"

/-- The text in a field, or the usual one. -/
def textField (name : String) (fields : List (Wide × Json)) (usual : Wide) : Wide :=
  match Json.lookup name fields with
  | some (.text t) => t
  | _ => usual

/-- The switch in a field, or the usual one. -/
def switchField (name : String) (fields : List (Wide × Json)) (usual : Bool) : Bool :=
  match Json.lookup name fields with
  | some (.bool b) => b
  | _ => usual

/-- What the log says about a value of another type than the setting. -/
def ignoredRecord (name : String) (value : Json) : Record :=
  ⟨"config", .warning, "設定値の型が不正なため無視します: " ++ name ++ "=" ++ value.shown⟩

/-- What the log says about a field that is to hold a text. -/
def textFieldLog (name : String) (fields : List (Wide × Json)) : List Record :=
  match Json.lookup name fields with
  | none => []
  | some (.text _) => []
  | some value => [ignoredRecord name value]

/-- What the log says about a field that is to hold a switch. -/
def switchFieldLog (name : String) (fields : List (Wide × Json)) : List Record :=
  match Json.lookup name fields with
  | none => []
  | some (.bool _) => []
  | some value => [ignoredRecord name value]

namespace Raw

/-- The fields of the settings. -/
def toFields (r : Raw) : List (Wide × Json) :=
  [(targetFolderName, .text r.targetFolder), (showSummaryName, .bool r.showSummary),
   (dateFormatName, .text r.dateFormat), (useSubfoldersName, .bool r.useSubfolders)]

def toJson (r : Raw) : Json := .object r.toFields

/-- The settings in the fields of an object.  Fields of other names, and values of another type
than the setting, are ignored. -/
def ofFields (fields : List (Wide × Json)) : Raw where
  targetFolder := textField targetFolderName fields usual.targetFolder
  showSummary := switchField showSummaryName fields usual.showSummary
  dateFormat := textField dateFormatName fields usual.dateFormat
  useSubfolders := switchField useSubfoldersName fields usual.useSubfolders

/-- What the log says while settings are taken from fields, setting by setting. -/
def ofFieldsLog (fields : List (Wide × Json)) : List Record :=
  textFieldLog targetFolderName fields ++ switchFieldLog showSummaryName fields ++
    textFieldLog dateFormatName fields ++ switchFieldLog useSubfoldersName fields

def shown (r : Raw) : String :=
  "Configuration(target_folder=" ++ Text.quoted r.targetFolder ++
    ", show_summary_notification=" ++ (Json.bool r.showSummary).shown ++
    ", date_format=" ++ Text.quoted r.dateFormat ++
    ", use_year_month_subfolders=" ++ (Json.bool r.useSubfolders).shown ++ ")"

theorem ofFields_toFields (r : Raw) : ofFields r.toFields = r := rfl

end Raw

/-! ### Changes -/

/-- New values for some of the settings. -/
structure Changes where
  targetFolder : Option String := none
  showSummary : Option Bool := none
  dateFormat : Option String := none
  useSubfolders : Option Bool := none
  deriving Repr, DecidableEq

namespace Raw

/-- The settings with new values, not validated. -/
def replace (r : Raw) (c : Changes) : Raw where
  targetFolder := (c.targetFolder.map wide).getD r.targetFolder
  showSummary := c.showSummary.getD r.showSummary
  dateFormat := (c.dateFormat.map wide).getD r.dateFormat
  useSubfolders := c.useSubfolders.getD r.useSubfolders

/-- The settings with new values, validated. -/
def updated (r : Raw) (c : Changes) : Raw := (r.replace c).validated

def updatedLog (r : Raw) (c : Changes) : List Record := (r.replace c).validatedLog

end Raw

end Settings

end NoteArchive
