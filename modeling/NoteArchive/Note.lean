/-!
# Notes

* `Note`: a file of the vault, by its name, its path and its extension.
* `Note.stem`: the name without the extension.
* `extensionOf`: the extension of a name.  A point at either end of a name begins none.
-/

namespace NoteArchive

/-- A file of the vault.  The path is relative to the vault, and the extension has no point. -/
structure Note where
  name : String
  path : String
  extension : String
  deriving Repr, DecidableEq

namespace Note

/-- The name without the point and the extension, if it ends with them. -/
def stem (n : Note) : String :=
  let name := n.name.toList
  let suffix := '.' :: n.extension.toList
  if n.extension ≠ "" ∧ suffix.isSuffixOf name then
    String.ofList (name.take (name.length - suffix.length))
  else n.name

end Note

/-- The extension of a name: what follows its last point, where something stands on both sides of
the point. -/
def extensionOf (name : String) : String :=
  let cs := name.toList
  let tail := (cs.reverse.takeWhile (· ≠ '.')).reverse
  if tail.length + 1 < cs.length ∧ tail ≠ [] then String.ofList tail else ""

/-- The file of a name at a path. -/
def Note.ofPath (name path : String) : Note := ⟨name, path, extensionOf name⟩

end NoteArchive
