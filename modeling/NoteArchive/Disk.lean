/-!
# Disks

A disk holds files and folders.

* `Place`: the names from the root of the disk on.  `Entry`: what is at a place.
* `Disk.get?`: the view of a disk, the entry at a place.  The root is always a folder.
* `Disk.lookup`: the entry at a place as it is found from the root on, name by name; `Lookup`
  says how the search ends.  `Disk.takesPath`: the text of a path is short enough for a search.
* `Disk.walk`: the place that names lead to, where two points go up.
* `Disk.makeFolder`, `Disk.makeFolders`, `Disk.writeFile`, `Disk.move`, `Disk.remove`: the changes
  of a disk, with `SystemCause` for those that are refused, and `Disk.Refusal` where one may be
  refused halfway.
* `get?_insert_of_ne`, `get?_putFile_of_ne`: what changes do to the view.
-/

namespace NoteArchive

/-- The names that lead to a file or a folder from the root of the disk. -/
abbrev Place := List String

/-- A file with its bytes, or a folder. -/
inductive Entry where
  | file (bytes : List UInt8)
  | folder
  deriving Repr, DecidableEq

/-- A disk, as the list of its entries without the root, and the number of bytes that the text of
a path may have. -/
structure Disk where
  entries : List (Place × Entry)
  longestPath : Nat := 4095
  deriving Repr

/-- Why the system refuses something. -/
inductive SystemCause where
  | missing
  | alreadyExists
  | notFolder
  | isFolder
  | intoItself
  | nameTooLong
  deriving Repr, DecidableEq

/-- How the search for a place ends. -/
inductive Lookup where
  | found (e : Entry)
  | missing
  | notFolder
  | nameTooLong
  deriving Repr, DecidableEq

namespace Disk

def empty : Disk := { entries := [] }

/-- The entry of a place in a list of entries. -/
def find (p : Place) : List (Place × Entry) → Option Entry
  | [] => none
  | (q, e) :: rest => if q = p then some e else find p rest

def get? (d : Disk) (p : Place) : Option Entry :=
  if p = [] then some .folder else find p d.entries

/-- Names may have 255 bytes. -/
def isTooLong (name : String) : Bool := 255 < name.utf8ByteSize

/-- The text of a path is not too long as a whole.  This is looked at before any name in it. -/
def takesPath (d : Disk) (text : String) : Bool := text.utf8ByteSize ≤ d.longestPath

/-- The search for the place of `rest` below `q`. -/
def lookupFrom (d : Disk) (q : Place) : List String → Lookup
  | [] =>
    match d.get? q with
    | none => .missing
    | some e => .found e
  | name :: rest =>
    match d.get? q with
    | none => .missing
    | some (.file _) => .notFolder
    | some .folder =>
      if isTooLong name then .nameTooLong else lookupFrom d (q ++ [name]) rest

/-- The search for a place from the root on. -/
def lookup (d : Disk) (p : Place) : Lookup := d.lookupFrom [] p

def isFolder (d : Disk) (p : Place) : Bool := d.lookup p = .found .folder

/-- The disk with one more entry, at a place where there is none. -/
def insert (d : Disk) (p : Place) (e : Entry) : Disk :=
  { d with entries := d.entries ++ [(p, e)] }

/-- The entries with another one at a place. -/
def replaceIn (p : Place) (e : Entry) : List (Place × Entry) → List (Place × Entry)
  | [] => [(p, e)]
  | (q, old) :: rest => if q = p then (q, e) :: rest else (q, old) :: replaceIn p e rest

/-- The disk with a file at a place, in the place of a file that was there. -/
def putFile (d : Disk) (p : Place) (bytes : List UInt8) : Disk :=
  { d with entries := replaceIn p (.file bytes) d.entries }

/-- Makes a folder, whose own folder has to be there. -/
def makeFolder (d : Disk) (p : Place) : Except SystemCause Disk :=
  match d.lookup p with
  | .found _ => .error .alreadyExists
  | .notFolder => .error .notFolder
  | .nameTooLong => .error .nameTooLong
  | .missing =>
    -- either the last name is missing, or already a folder on the way
    if d.isFolder p.dropLast then .ok (d.insert p .folder) else .error .missing

/-- The place that names lead to from a folder, where two points go up.  A step up is possible
only from a folder that is there. -/
def walk (d : Disk) (p : Place) : List String → Except SystemCause Place
  | [] => .ok p
  | name :: rest =>
    if name = ".." then
      match d.lookup p with
      | .found .folder => d.walk p.dropLast rest
      | .nameTooLong => .error .nameTooLong
      | .missing => .error .missing
      | _ => .error .notFolder
    else d.walk (p ++ [name]) rest

/-- A change that is refused on the way: why, at which names, and the disk as it is by then. -/
structure Refusal where
  cause : SystemCause
  names : List String
  disk : Disk
  deriving Repr

/-- Makes the folder that names lead to, for which `lead` finds the place.  It may be there
already. -/
def ensureFolder (lead : Disk → List String → Except SystemCause Place) (d : Disk)
    (names : List String) : Except SystemCause Disk := do
  let p ← lead d names
  match d.makeFolder p with
  | .ok d' => .ok d'
  | .error cause => if d.isFolder p then .ok d else .error cause

/-- Makes a folder and the folders that lead to it, as far as they are missing.  The names come
last one first. -/
def ensureFoldersUp (lead : Disk → List String → Except SystemCause Place) (d : Disk) :
    List String → Except Refusal Disk
  | [] => .ok d
  | name :: up =>
    let names := (name :: up).reverse
    match d.ensureFolder lead names with
    | .ok d' => .ok d'
    | .error .missing =>
      match d.ensureFoldersUp lead up with
      | .error r => .error r
      | .ok d' => (d'.ensureFolder lead names).mapError fun cause => ⟨cause, names, d'⟩
    | .error cause => .error ⟨cause, names, d⟩

/-- Makes a folder at a place and the folders that lead to it. -/
def makeFolders (d : Disk) (p : Place) : Except Refusal Disk :=
  d.ensureFoldersUp (fun _ p => .ok p) p.reverse

/-- Makes the folder that names lead to, where two points go up, and all folders on the way. -/
def makeFoldersAlong (d : Disk) (names : List String) : Except Refusal Disk :=
  d.ensureFoldersUp (fun d names => d.walk [] names) names.reverse

/-- Writes a file, whose folder has to be there. -/
def writeFile (d : Disk) (p : Place) (bytes : List UInt8) : Except SystemCause Disk :=
  match d.lookup p with
  | .found .folder => .error .isFolder
  | .found (.file _) => .ok (d.putFile p bytes)
  | .notFolder => .error .notFolder
  | .nameTooLong => .error .nameTooLong
  | .missing =>
    if d.isFolder p.dropLast then .ok (d.putFile p bytes) else .error .missing

/-- The place of `p` after `source` went to `target`. -/
def relocate (source target p : Place) : Place :=
  if source.isPrefixOf p then target ++ p.drop source.length else p

/-- Moves what is at `source`, with all that lies under it, to `target`, where there is nothing.
A folder cannot go under itself. -/
def move (d : Disk) (source target : Place) : Except SystemCause Disk :=
  if source.isPrefixOf target then .error .intoItself
  else .ok { d with entries := d.entries.map fun (p, e) => (relocate source target p, e) }

/-- Removes what is at a place, with all that lies under it. -/
def remove (d : Disk) (p : Place) : Disk :=
  { d with entries := d.entries.filter fun (q, _) => !p.isPrefixOf q }

/-- Removes what is at a place, where something has to be. -/
def delete (d : Disk) (p : Place) : Except SystemCause Disk :=
  match d.lookup p with
  | .found _ => .ok (d.remove p)
  | .missing => .error .missing
  | .notFolder => .error .notFolder
  | .nameTooLong => .error .nameTooLong

/-- The entries under a place, with the names from there on. -/
def under (d : Disk) (p : Place) : List (Place × Entry) :=
  d.entries.filterMap fun (q, e) =>
    if p.isPrefixOf q ∧ q ≠ p then some (q.drop p.length, e) else none

/-! ### What the changes do to the view -/

theorem get?_nil (d : Disk) : d.get? [] = some .folder := by simp [get?]

theorem get?_of_ne_nil {p : Place} (h : p ≠ []) (d : Disk) : d.get? p = find p d.entries := by
  simp [get?, h]

theorem find_append (p : Place) (l m : List (Place × Entry)) :
    find p (l ++ m) = (find p l).or (find p m) := by
  induction l with
  | nil => rfl
  | cons x r ih =>
    by_cases h : x.1 = p <;> simp [find, h, ih]

/-- A new entry is found where it was put, if nothing was there. -/
theorem get?_insert_self {d : Disk} {p : Place} (hp : p ≠ []) (h : d.get? p = none) (e : Entry) :
    (d.insert p e).get? p = some e := by
  rw [get?_of_ne_nil hp] at h ⊢
  simp [insert, find_append, h, find]

theorem get?_insert_of_ne {p q : Place} (h : q ≠ p) (d : Disk) (e : Entry) :
    (d.insert p e).get? q = d.get? q := by
  by_cases hq : q = []
  · simp [hq, get?_nil]
  · rw [get?_of_ne_nil hq, get?_of_ne_nil hq]
    simp [insert, find_append, find, h.symm]

theorem find_replaceIn_self (p : Place) (e : Entry) (l : List (Place × Entry)) :
    find p (replaceIn p e l) = some e := by
  induction l with
  | nil => simp [replaceIn, find]
  | cons x r ih => by_cases h : x.1 = p <;> simp [replaceIn, find, h, ih]

theorem find_replaceIn_of_ne {p q : Place} (h : q ≠ p) (e : Entry) (l : List (Place × Entry)) :
    find q (replaceIn p e l) = find q l := by
  induction l with
  | nil => simp [replaceIn, find, h.symm]
  | cons x r ih =>
    by_cases hx : x.1 = p
    · simp [replaceIn, find, hx, h.symm]
    · by_cases hq : x.1 = q
      · simp [replaceIn, find, hq, h]
      · simp [replaceIn, find, hx, hq, ih]

theorem get?_putFile_self {p : Place} (hp : p ≠ []) (d : Disk) (bytes : List UInt8) :
    (d.putFile p bytes).get? p = some (.file bytes) := by
  rw [get?_of_ne_nil hp]
  exact find_replaceIn_self p _ _

theorem get?_putFile_of_ne {p q : Place} (h : q ≠ p) (d : Disk) (bytes : List UInt8) :
    (d.putFile p bytes).get? q = d.get? q := by
  by_cases hq : q = []
  · simp [hq, get?_nil]
  · rw [get?_of_ne_nil hq, get?_of_ne_nil hq]
    exact find_replaceIn_of_ne h _ _

/-- Nothing moves but what is under the source. -/
theorem relocate_of_not_prefix {source p : Place} (h : source.isPrefixOf p = false)
    (target : Place) : relocate source target p = p := by
  simp [relocate, h]

/-- What is under the source comes under the target, with the same names from there on. -/
theorem relocate_append (source target rest : Place) :
    relocate source target (source ++ rest) = target ++ rest := by
  simp [relocate]

end Disk

end NoteArchive
