import NoteArchive.DateFormat.Part
import NoteArchive.Journal.Record
import NoteArchive.Text.Quoted

/-!
# Checking a date format

A format is usable when it has a token and does not mix the separators.  Parts that are not made
of tokens are allowed, and ignored.

* `Problem`, `problems`: what is wrong with a format, for the user.
* `isValid`: the format can be used.
* `resolve`: the format itself, or the usual one instead of a format that cannot be used.
  `resolveWide`: the same where characters may be halved.
-/

namespace NoteArchive.DateFormat

def usual : String := "DD-MM-YYYY"

/-- What can be wrong with a format. -/
inductive Problem where
  | empty
  | noTokens (format : String)
  | mixedSeparators (format : String)
  | ignoredPart (part : String)
  deriving Repr, DecidableEq

/-- A format that mixes the separators cannot be used. -/
def mixedMessage (format : String) : String :=
  "区切り文字 '-' と '/' を混在させることはできません: " ++ format

def Problem.message : Problem → String
  | .empty => "日付フォーマットが空です"
  | .noTokens format =>
    "使用可能なトークンが含まれていません: " ++ format ++
      " (使用可能: " ++ ", ".intercalate (Token.all.map Token.name) ++ ")"
  | .mixedSeparators format => mixedMessage format
  | .ignoredPart part => "認識できない部分は無視されます: " ++ part

/-- A format has at least one token. -/
def hasUsableTokens (f : List Char) : Bool := !(findTokens f).isEmpty

/-- What is wrong with a format: first what concerns it as a whole, then its unrecognised parts in
order. -/
def problems (format : String) : List Problem :=
  let f := format.toList
  if f = [] then [.empty]
  else
    (if hasUsableTokens f then [] else [.noTokens format]) ++
    (if hasMixedSeparators f then [.mixedSeparators format] else []) ++
    ((parts f).filter Part.isUnrecognised).map fun p => .ignoredPart p.text

def isValid (format : String) : Bool :=
  hasUsableTokens format.toList && !hasMixedSeparators format.toList

/-- The format that is used where `format` is asked for. -/
def resolve (format : String) : String := if isValid format then format else usual

@[inherit_doc resolve]
def resolveWide (format : Text.Wide) : Text.Wide :=
  if isValid (Text.stand format) then format else Text.wide usual

/-- What the log says when a format, whose text in the log is `shown`, is replaced. -/
def replacedRecord (shown : String) : Record :=
  ⟨"date_format", .warning,
    "無効な日付フォーマット: " ++ shown ++ "、" ++ usual ++ " を使用します"⟩

/-- What the log says about the choice of the format. -/
def resolveLog (format : Text.Wide) : List Record :=
  if isValid (Text.stand format) then [] else [replacedRecord (Text.quoted format)]

theorem stand_resolveWide (format : Text.Wide) :
    Text.stand (resolveWide format) = resolve (Text.stand format) := by
  rw [resolveWide, resolve]
  split
  · rfl
  · exact Text.stand_wide usual

theorem resolveWide_wide (format : String) :
    resolveWide (Text.wide format) = Text.wide (resolve format) := by
  rw [resolveWide, resolve, Text.stand_wide]
  exact (apply_ite Text.wide _ _ _).symm

theorem isValid_usual : isValid usual = true := by decide +kernel

/-- The format that is used is one that can be used. -/
theorem isValid_resolve (format : String) : isValid (resolve format) = true := by
  unfold resolve
  split
  · assumption
  · exact isValid_usual

end NoteArchive.DateFormat
