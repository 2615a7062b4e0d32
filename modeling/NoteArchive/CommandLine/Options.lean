import NoteArchive.Text.Digit
import NoteArchive.Text.Quoted

/-!
# Options

The words of a command line are options and operands.

* `Opt`, `Effect`: an option, and what it does to the values `α` that the options collect.
* `UsageError`: what is wrong with a command line.
* `Tag`, `tagAll`: what each word is, before any of them takes effect.

A long name may be cut short as long as no other name begins like it.  The value of an option is
the word after it, or is attached to the name: it follows an equals sign, or follows a short name
directly.  An attached `--` stands for the usual value.  After the word `--` all words are
operands, and so are negative numbers and words with a space that name no option.
-/

namespace NoteArchive.CommandLine

/-- What an option does. -/
inductive Effect (α : Type) where
  | help
  | flag (set : α → α)
  /-- The option takes a value, which may be refused, or goes back to the usual one. -/
  | value (set : α → String → Except String α) (reset : α → α)

/-- An option: its names, what it does, and the titles of the options that exclude it. -/
structure Opt (α : Type) where
  names : List String
  effect : Effect α
  rivals : List String := []

namespace Opt

variable {α : Type}

/-- An option in messages: all of its names. -/
def title (o : Opt α) : String := "/".intercalate o.names

def takesValue (o : Opt α) : Bool :=
  match o.effect with
  | .value _ _ => true
  | _ => false

end Opt

/-- What is wrong with a command line. -/
inductive UsageError where
  | ambiguous (word : String) (names : List String)
  | noValue (option : String)
  | uselessValue (option value : String)
  | refusedValue (option text : String)
  | conflict (option rival : String)
  | unknownCommand (word : String) (known : List String)
  | missingOperand (operand : String)
  | unrecognized (words : List String)
  deriving Repr, DecidableEq

def UsageError.message : UsageError → String
  | .ambiguous word names =>
    "ambiguous option: " ++ word ++ " could match " ++ ", ".intercalate names
  | .noValue option => "argument " ++ option ++ ": expected one argument"
  | .uselessValue option value =>
    "argument " ++ option ++ ": ignored explicit argument " ++ Text.quoted value
  | .refusedValue option text => "argument " ++ option ++ ": " ++ text
  | .conflict option rival => "argument " ++ option ++ ": not allowed with argument " ++ rival
  | .unknownCommand word known =>
    "argument <command>: invalid choice: " ++ Text.quoted word ++
      " (choose from " ++ ", ".intercalate (known.map fun s : String => Text.quoted s) ++ ")"
  | .missingOperand operand => "the following arguments are required: " ++ operand
  | .unrecognized words => "unrecognized arguments: " ++ " ".intercalate words

/-- What a word is. -/
inductive Tag (α : Type) where
  | operand
  /-- The word `--`, after which there are only operands. -/
  | separator
  /-- An option, and the text that is attached to its name. -/
  | option (o : Opt α) (isShort : Bool) (attached : Option (List Char))
  /-- An option that is not known. -/
  | unknown

section Tags

variable {α : Type}

/-- The names of some options, each with its option. -/
def named (options : List (Opt α)) : List (String × Opt α) :=
  options.flatMap fun o => o.names.map fun name => (name, o)

def optionOf? (options : List (Opt α)) (name : List Char) : Option (Opt α) :=
  ((named options).find? fun p => p.1.toList = name).map (·.2)

/-- A name with one hyphen is short. -/
def isShortName (name : List Char) : Bool := name.drop 1 |>.head? |>.all (· ≠ '-')

/-- A word cut at its first equals sign. -/
def cutAtEquals (word : List Char) : List Char × Option (List Char) :=
  match word.dropWhile (· ≠ '=') with
  | [] => (word, none)
  | _ :: text => (word.takeWhile (· ≠ '='), some text)

/-- What a word with a name can be that is not the name of an option in full: a long name that is
cut short, or a short name with a value. -/
def readings (options : List (Opt α)) (word : List Char) : List (String × Tag α) :=
  if isShortName word then
    (named options).filterMap fun (name, o) =>
      if name.toList = word.take 2 then some (name, .option o true (some (word.drop 2)))
      else if word.isPrefixOf name.toList then
        some (name, .option o (isShortName name.toList) none)
      else none
  else
    let (start, attached) := cutAtEquals word
    (named options).filterMap fun (name, o) =>
      if start.isPrefixOf name.toList then
        some (name, .option o (isShortName name.toList) attached)
      else none

/-- A hyphen and digits, perhaps with a point among them.  One line feed may follow. -/
def isNegativeNumber (word : List Char) : Bool :=
  match word with
  | '-' :: rest =>
    let body := if rest.getLast? = some '\n' then rest.dropLast else rest
    match body.dropWhile Text.isDigit with
    | [] => body ≠ []
    | c :: more => c = '.' && more ≠ [] && more.all Text.isDigit
  | _ => false

/-- What a word is, apart from the words around it. -/
def tagOf (options : List (Opt α)) (text : String) : Except UsageError (Tag α) :=
  let word := text.toList
  if word.head? ≠ some '-' then .ok .operand
  -- a name in full comes before all that it could be short for
  else match optionOf? options word with
    | some o => .ok (.option o (isShortName word) none)
    | none =>
      if word = ['-'] then .ok .operand
      else
        let (name, attached) := cutAtEquals word
        match optionOf? options name with
        | some o => .ok (.option o (isShortName name) attached)
        | none =>
          match readings options word with
          | [(_, tag)] => .ok tag
          | [] => .ok (if isNegativeNumber word ∨ ' ' ∈ word then .operand else .unknown)
          | several => .error (.ambiguous text (several.map (·.1)))

/-- The words of a command line, each with what it is. -/
def tagAll (options : List (Opt α)) : List String → Except UsageError (List (String × Tag α))
  | [] => .ok []
  | word :: rest =>
    if word = "--" then .ok ((word, .separator) :: rest.map fun w => (w, .operand))
    else do
      let tag ← tagOf options word
      let tags ← tagAll options rest
      return (word, tag) :: tags

end Tags

end NoteArchive.CommandLine
