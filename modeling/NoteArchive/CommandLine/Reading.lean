import NoteArchive.CommandLine.Options

/-!
# Reading a command line

The words of a command line take effect from left to right.

* `Reading`: what was read so far: the values of the options, the operand, and the words that
  nothing is known about.
* `Bundle`, `bundle`: the options in one word, which are several where flags with short names
  stand in one word.
* `readOperand`: a command line with one operand.
* `readCommand`: a command line whose operand is a command, to which all words after it belong.

The reading stops where help is asked for, and at the first error.
-/

namespace NoteArchive.CommandLine

/-- Why a reading stops. -/
inductive Stop where
  | help
  | wrong (e : UsageError)
  deriving Repr, DecidableEq

/-- What was read: the values of the options, the titles of the options, the operand, and the words
that nothing is known about. -/
structure Reading (α : Type) where
  values : α
  seen : List String := []
  operand : Option String := none
  strange : List String := []

/-- The options in one word with their values, and whether the word after it is one of the
values. -/
structure Bundle (α : Type) where
  options : List (Opt α × Option String)
  takesNext : Bool := false

section Bundles

variable {α : Type}

/-- An option to which nothing is attached; its value is the next word, if that is an operand. -/
def alone (next : Option String) (o : Opt α) : Except UsageError (Bundle α) :=
  if o.takesValue then
    match next with
    | none => .error (.noValue o.title)
    | some value => .ok { options := [(o, some value)], takesNext := true }
  else .ok { options := [(o, none)] }

/-- An option that takes the text that is attached to it. -/
def valued (o : Opt α) (text : List Char) : Bundle α :=
  { options := [(o, some (String.ofList text))] }

/-- An option with a short name in front of the rest of a word.  The rest of the word after a flag
begins with the letter of another short name. -/
def cluster (options : List (Opt α)) (next : Option String) (o : Opt α) :
    List Char → Except UsageError (Bundle α)
  | [] => alone next o
  | c :: more =>
    if o.takesValue then .ok (valued o (c :: more))
    else match optionOf? options ['-', c] with
      | none => .error (.uselessValue o.title (String.ofList (c :: more)))
      | some o' => do
        let b ← cluster options next o' more
        return { b with options := (o, none) :: b.options }

/-- The options in one word: only flags with short names can stand before others. -/
def bundle (options : List (Opt α)) (next : Option String) (o : Opt α) (isShort : Bool) :
    Option (List Char) → Except UsageError (Bundle α)
  | none => alone next o
  | some text =>
    if o.takesValue then .ok (valued o text)
    else if isShort ∧ text ≠ [] then cluster options next o text
    else .error (.uselessValue o.title (String.ofList text))

end Bundles

section Readings

variable {α : Type}

namespace Reading

/-- One more word that nothing is known about. -/
def addStrange (r : Reading α) (words : List String) : Reading α :=
  { r with strange := r.strange ++ words }

/-- The values after an option with its value. -/
def valuesAfter (r : Reading α) (o : Opt α) (value : Option String) : Except Stop α :=
  match o.effect with
  | .help => .error .help
  | .flag set => .ok (set r.values)
  | .value set reset =>
    if value = some "--" then .ok (reset r.values)
    else match set r.values (value.getD "") with
      | .ok values => .ok values
      | .error text => .error (.wrong (.refusedValue o.title text))

/-- The reading after an option, which must not be excluded by another one. -/
def take (r : Reading α) (o : Opt α) (value : Option String) : Except Stop (Reading α) := do
  let values ← r.valuesAfter o value
  match o.rivals.find? r.seen.contains with
  | some rival => .error (.wrong (.conflict o.title rival))
  | none => .ok { r with values, seen := r.seen ++ [o.title] }

/-- The reading after some options. -/
def takeAll (r : Reading α) : List (Opt α × Option String) → Except Stop (Reading α)
  | [] => .ok r
  | (o, value) :: rest => do
    let r ← r.take o value
    r.takeAll rest

/-- The reading after a word with options, and whether the next word belongs to it. -/
def takeWord (r : Reading α) (options : List (Opt α)) (o : Opt α) (isShort : Bool)
    (attached : Option (List Char)) (rest : List (String × Tag α)) :
    Except Stop (Reading α × Bool) := do
  let next := match rest with
    | (word, .operand) :: _ => some word
    | _ => none
  match bundle options next o isShort attached with
  | .error e => .error (.wrong e)
  | .ok b =>
    let r ← r.takeAll b.options
    return (r, b.takesNext)

end Reading

/-- The next word is the one after which there are only operands. -/
def isSeparatorNext : List (String × Tag α) → Bool
  | (_, .separator) :: _ => true
  | _ => false

/-- The words from here on, of which the first one is left out if it belongs to what was read
before. -/
def readOperandFrom (options : List (Opt α)) (r : Reading α) (isUsed : Bool) :
    List (String × Tag α) → Except Stop (Reading α)
  | [] => .ok r
  | (word, tag) :: rest =>
    if isUsed then readOperandFrom options r false rest
    else match tag with
      | .unknown => readOperandFrom options (r.addStrange [word]) false rest
      | .operand =>
        if r.operand.isSome then readOperandFrom options (r.addStrange [word]) false rest
        else readOperandFrom options { r with operand := some word } (isSeparatorNext rest) rest
      | .separator =>
        match rest.head? with
        | some (next, _) =>
          if r.operand.isSome then readOperandFrom options (r.addStrange [word]) false rest
          else readOperandFrom options { r with operand := some next } true rest
        | none => .ok (r.addStrange [word])
      | .option o isShort attached => do
        let (r, takesNext) ← r.takeWord options o isShort attached rest
        readOperandFrom options r takesNext rest

/-- A command line with one operand.  The word `--` goes with the operand beside it; without it, and
beyond it, words are strange. -/
def readOperand (options : List (Opt α)) (r : Reading α) (words : List (String × Tag α)) :
    Except Stop (Reading α) :=
  readOperandFrom options r false words

/-- The words from here on, of which the first one is left out if it belongs to what was read
before. -/
def readCommandFrom (options : List (Opt α)) (r : Reading α) (isUsed : Bool) :
    List (String × Tag α) → Except Stop (Reading α × List String)
  | [] => .ok (r, [])
  | (word, tag) :: rest =>
    if isUsed then readCommandFrom options r false rest
    else match tag with
      | .unknown => readCommandFrom options (r.addStrange [word]) false rest
      | .operand => .ok ({ r with operand := some word }, rest.map (·.1))
      | .separator =>
        if rest.isEmpty then .ok (r.addStrange [word], [])
        else .ok ({ r with operand := some word }, rest.map (·.1))
      | .option o isShort attached => do
        let (r, takesNext) ← r.takeWord options o isShort attached rest
        readCommandFrom options r takesNext rest

/-- A command line whose operand is a command: what was read before the command, and the words
after it. -/
def readCommand (options : List (Opt α)) (r : Reading α) (words : List (String × Tag α)) :
    Except Stop (Reading α × List String) :=
  readCommandFrom options r false words

end Readings

end NoteArchive.CommandLine
