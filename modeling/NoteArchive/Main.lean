import NoteArchive.CommandLine.Run
import NoteArchive.Disk.Image
import NoteArchive.Json.Writer

/-!
# The program

The program runs one command line on a disk that it is given, so that what a command would do can be
seen before it is done.

Standard input holds a JSON object, or nothing for an empty disk:

* `clock`: the moments that the clock will show, as `YYYY-MM-DDThh:mm:ss`;
* `disk`, `home`: what is on the disk, and in the home folder, as rows of paths and contents.

The output and the errors of the command go to standard output and standard error, its exit code is
that of the program, and where a disk was given its rows after the command follow in one line.
-/

namespace NoteArchive

/-- What the clock shows if nothing is said about it. -/
def usualMoment : Moment := ⟨⟨2024, 3, 15⟩, 12, 0, 0, 0⟩

def homeFolder : Path := ⟨"/", ["home"]⟩

/-- The items of a field that holds an array. -/
def arrayField (name : String) (scene : Json) : List Json :=
  match scene.field? name with
  | some (.array items) => items
  | _ => []

/-- The rows of a field. -/
def rowsField (name : String) (scene : Json) : List Disk.Row :=
  (arrayField name scene).filterMap Disk.Row.ofJson

def clockOf (scene : Json) : Clock :=
  .ofMoments usualMoment ((arrayField "clock" scene).filterMap fun
    | .text s => Moment.read? (Text.stand s)
    | _ => none)

/-- The world of a scene, if its rows can be put on a disk. -/
def worldOf (scene : Json) : Except Failure World := do
  let bare := Disk.empty.insert homeFolder.parts .folder
  return {
    disk := ← Disk.empty.after (Disk.putRows [] (rowsField "disk" scene))
    home := ← bare.after (Disk.putRows homeFolder.parts (rowsField "home" scene))
    homePath := homeFolder
    clock := clockOf scene }

/-- The scene that a text writes. -/
def sceneOf (text : String) : Except String Json :=
  if text.toList.all Text.isBlank then .ok .null
  else match Json.read text.toList with
    | .ok scene => .ok scene
    | .error e => .error e.message

/-- What is left to read of a stream. -/
partial def readAll (input : IO.FS.Stream) (before : String) : IO String := do
  let line ← input.getLine
  if line.isEmpty then return before else readAll input (before ++ line)

/-- A command line in the world of a scene. -/
def runIn (scene : Json) (start : World) (words : List String) : IO UInt32 := do
  match CommandLine.run words start with
  | (.error e, _) =>
    (← IO.getStderr).putStrLn e.message
    return 1
  | (.ok outcome, w) =>
    (← IO.getStdout).putStr outcome.output
    (← IO.getStderr).putStr outcome.errors
    match scene with
    | .null => return UInt32.ofNat outcome.exit
    | _ =>
      (← IO.getStdout).putStrLn (Json.array ((w.disk.rows []).map Disk.Row.toJson)).compact
      return UInt32.ofNat outcome.exit

end NoteArchive

/-- The program. -/
def main (words : List String) : IO UInt32 := do
  let scene := NoteArchive.sceneOf (← NoteArchive.readAll (← IO.getStdin) "")
  match scene.bind fun s => ((NoteArchive.worldOf s).mapError (·.message)).map fun w => (s, w) with
  | .ok (scene, start) => NoteArchive.runIn scene start words
  | .error message =>
    (← IO.getStderr).putStrLn message
    return 2
