import NoteArchive.Decimal.Shortest
import NoteArchive.Text.Quoted

/-!
# JSON values

The settings file is a JSON text.

* `Json`: the values.  Their texts may hold halves of characters.  Whole numbers are kept apart from
  numbers with a fraction or an exponent, and the fields of an object keep their order.
* `Json.field?`, `Json.putField`: the fields of an object by name.  A name occurs once: writing
  it again replaces the value and keeps the place.
* `Json.shown`: the text of a value in a warning.
-/

namespace NoteArchive

/-- A JSON value. -/
inductive Json where
  | null
  | bool (b : Bool)
  | int (n : Int)
  | float (x : Decimal.Binary64)
  | text (t : Text.Wide)
  | array (items : List Json)
  | object (fields : List (Text.Wide × Json))

namespace Json

def lookup (name : Text.Wide) : List (Text.Wide × Json) → Option Json
  | [] => none
  | (key, value) :: rest => if key = name then some value else lookup name rest

/-- The fields with one more, in the place of the field of the same name if there is one. -/
def putField (name : Text.Wide) (value : Json) :
    List (Text.Wide × Json) → List (Text.Wide × Json)
  | [] => [(name, value)]
  | (key, old) :: rest =>
    if key = name then (key, value) :: rest else (key, old) :: putField name value rest

/-- The value of a field of an object; other values have no fields. -/
def field? (name : Text.Wide) : Json → Option Json
  | .object fields => lookup name fields
  | _ => none

/-! ### The text of a value in a warning

A warning about a value shows it in full: texts are quoted, lists stand in brackets and objects
in braces, and the three named values have capital letters. -/

mutual

def shown : Json → String
  | .null => "None"
  | .bool b => if b then "True" else "False"
  | .int n => toString n
  | .float x => x.text
  | .text t => Text.quoted t
  | .array items => "[" ++ ", ".intercalate (shownItems items) ++ "]"
  | .object fields => "\x7b" ++ ", ".intercalate (shownFields fields) ++ "\x7d"

def shownItems : List Json → List String
  | [] => []
  | item :: rest => shown item :: shownItems rest

def shownFields : List (Text.Wide × Json) → List String
  | [] => []
  | (name, value) :: rest => (Text.quoted name ++ ": " ++ shown value) :: shownFields rest

end

end Json

end NoteArchive
