import NoteArchive.Archive.Operation
import NoteArchive.CommandLine.Reading

/-!
# Commands

* `Command`: what the program is asked to do.
* `Kind`: the commands by name, with the options and the operand of each.
* `Request.ofWords`: what the words of a command line ask for: a command, help, or nothing because
  of an error.
-/

namespace NoteArchive.CommandLine

/-- What the program is asked to do. -/
inductive Command where
  | operate (op : Operation) (vault : String) (today : Option Date) (verbose : Bool)
  | config (vault : String) (changes : Settings.Changes)
  | checkFormat (format : String)
  deriving Repr, DecidableEq

/-- The commands. -/
inductive Kind where
  | operate (op : Operation)
  | config
  | checkFormat
  deriving Repr, DecidableEq

def programName : String := "daily-note-mover"

namespace Kind

/-- All commands, in the order in which they are listed to the user. -/
def all : List Kind := [.operate .archive, .operate .relocate, .config, .checkFormat]

/-- The names of a command, the full one and the short one. -/
def names : Kind → String × String
  | .operate .archive => ("archive", "a")
  | .operate .relocate => ("relocate", "r")
  | .config => ("config", "c")
  | .checkFormat => ("check-format", "f")

def allNames : List String := all.flatMap fun k => [k.names.1, k.names.2]

def ofName? (name : String) : Option Kind := all.find? fun k => k.names.1 = name ∨ k.names.2 = name

/-- The program with the command, in messages. -/
def program (k : Kind) : String := programName ++ " " ++ k.names.1

def operand : Kind → String
  | .checkFormat => "date_format"
  | _ => "vault"

end Kind

/-! ### Options -/

/-- The option that asks for help. -/
def helpOption (α : Type) : Opt α := { names := ["-h", "--help"], effect := .help }

/-- The values of the options of an operation. -/
structure OperationValues where
  today : Option Date := none
  verbose : Bool := false
  deriving Repr, DecidableEq

/-- A day that is written in another way than `Date.read?` reads it is refused. -/
def setToday (values : OperationValues) (text : String) : Except String OperationValues :=
  match Date.read? text with
  | some date => .ok { values with today := some date }
  | none => .error ("日付は YYYY-MM-DD 形式で指定してください: " ++ text)

def operationOptions : List (Opt OperationValues) :=
  [helpOption _,
   { names := ["--today"]
     effect := .value setToday fun values => { values with today := none } },
   { names := ["--verbose", "-v"], effect := .flag fun values => { values with verbose := true } }]

def configOptions : List (Opt Settings.Changes) :=
  [helpOption _,
   { names := ["--target-folder", "-t"]
     effect := .value (fun c text => .ok { c with targetFolder := some text })
       fun c => { c with targetFolder := some "" } },
   { names := ["--date-format", "-d"]
     effect := .value (fun c text => .ok { c with dateFormat := some text })
       fun c => { c with dateFormat := some "" } },
   { names := ["--summary"]
     effect := .flag fun c => { c with showSummary := some true }
     rivals := ["--no-summary"] },
   { names := ["--no-summary"]
     effect := .flag fun c => { c with showSummary := some false }
     rivals := ["--summary"] },
   { names := ["--subfolders"]
     effect := .flag fun c => { c with useSubfolders := some true }
     rivals := ["--no-subfolders"] },
   { names := ["--no-subfolders"]
     effect := .flag fun c => { c with useSubfolders := some false }
     rivals := ["--subfolders"] }]

/-! ### Requests -/

/-- What a command line asks for.  Help and errors come with the program or the command that is
concerned. -/
inductive Request where
  | help (program : String)
  | wrong (program : String) (e : UsageError)
  | command (c : Command)
  deriving Repr, DecidableEq

/-- The words of a command with its options, and the words that nothing is known about. -/
def readWords {α : Type} (k : Kind) (options : List (Opt α)) (values : α) (words : List String) :
    Except Stop (String × α × List String) := do
  match tagAll options words with
  | .error e => .error (.wrong e)
  | .ok tags =>
    let r ← readOperand options { values } tags
    match r.operand with
    | none => .error (.wrong (.missingOperand k.operand))
    | some operand => .ok (operand, r.values, r.strange)

def Kind.read (k : Kind) (words : List String) : Except Stop (Command × List String) :=
  match k with
  | .operate op => do
    let (vault, values, strange) ← readWords k operationOptions {} words
    return (.operate op vault values.today values.verbose, strange)
  | .config => do
    let (vault, changes, strange) ← readWords k configOptions {} words
    return (.config vault changes, strange)
  | .checkFormat => do
    let (format, _, strange) ← readWords k [helpOption Unit] () words
    return (.checkFormat format, strange)

/-- The request of a reading that stopped. -/
def Stop.request (program : String) : Stop → Request
  | .help => .help program
  | .wrong e => .wrong program e

/-- What is asked for when all words are read, unless nothing is known about some of them. -/
def Request.unless (strange : List String) (request : Request) : Request :=
  if strange = [] then request else .wrong programName (.unrecognized strange)

/-- What the words of a command line ask for.  Where no command is named it is help. -/
def Request.ofWords (words : List String) : Request :=
  let options := [helpOption Unit]
  match tagAll options words with
  | .error e => .wrong programName e
  | .ok tags =>
    match readCommand options { values := () } tags with
    | .error stop => stop.request programName
    | .ok (r, rest) =>
      match r.operand with
      | none => (Request.help programName).unless r.strange
      | some name =>
        match Kind.ofName? name with
        | none => .wrong programName (.unknownCommand name Kind.allNames)
        | some k =>
          match k.read rest with
          | .error stop => stop.request k.program
          | .ok (c, strange) => (Request.command c).unless (r.strange ++ strange)

end NoteArchive.CommandLine
