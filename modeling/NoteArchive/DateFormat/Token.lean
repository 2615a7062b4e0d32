/-!
# Tokens of a date format

A date format is written with six tokens, each of which stands for a day, a month or a year in
the name of a note.

* `Token`, `Field`: the tokens and what they stand for.
* `Token.strip?`: the rest of a text that begins with a token.
* `tokenize`: the tokens that a text is made of.  The longest token is tried first, and a shorter
  one where the rest of the text could not be read after it; `length_strip?` makes this end.
* `flatMap_letters_of_tokensOf`: the letters of the tokens are the text.
-/

namespace NoteArchive

/-- What a token stands for. -/
inductive Field where
  | day
  | month
  | year
  deriving Repr, DecidableEq

def Field.name : Field → String
  | .day => "day"
  | .month => "month"
  | .year => "year"

/-- The tokens: two digits of the day; two digits, three letters or four and more letters of the
month; four or two digits of the year. -/
inductive Token where
  | dd
  | mm
  | yyyy
  | yy
  | mmm
  | mmmm
  deriving Repr, DecidableEq

namespace Token

/-- All tokens, in the order in which they are listed to the user. -/
def all : List Token := [.dd, .mm, .yyyy, .yy, .mmm, .mmmm]

/-- All tokens, the longer ones first. -/
def byLength : List Token := [.yyyy, .mmmm, .mmm, .dd, .mm, .yy]

def letters : Token → List Char
  | .dd => ['D', 'D']
  | .mm => ['M', 'M']
  | .yyyy => ['Y', 'Y', 'Y', 'Y']
  | .yy => ['Y', 'Y']
  | .mmm => ['M', 'M', 'M']
  | .mmmm => ['M', 'M', 'M', 'M']

/-- The name of a token is its letters. -/
def name (t : Token) : String := String.ofList t.letters

def field : Token → Field
  | .dd => .day
  | .mm | .mmm | .mmmm => .month
  | .yyyy | .yy => .year

/-- The pattern of the texts that a token matches, as a regular expression. -/
def pattern : Token → String
  | .dd | .mm | .yy => "\\d\x7b2\x7d"
  | .yyyy => "\\d\x7b4\x7d"
  | .mmm => "[A-Za-z]\x7b3\x7d"
  | .mmmm => "[A-Za-z]\x7b4,\x7d"

theorem mem_byLength (t : Token) : t ∈ byLength := by cases t <;> decide

theorem letters_ne_nil (t : Token) : t.letters ≠ [] := by cases t <;> simp [letters]

/-- What follows the letters of a token at the front of `s`. -/
def strip? (t : Token) (s : List Char) : Option (List Char) :=
  if t.letters.isPrefixOf s then some (s.drop t.letters.length) else none

/-- The letters of a token are at the front of a text exactly when the text is these letters and
the rest. -/
theorem strip?_eq_some_iff {t : Token} {s r : List Char} :
    t.strip? s = some r ↔ s = t.letters ++ r := by
  unfold strip?
  constructor
  · intro h
    split at h
    · next hp =>
      obtain ⟨w, rfl⟩ := List.isPrefixOf_iff_prefix.1 hp
      simpa using h
    · cases h
  · rintro rfl
    simp

theorem length_strip? {t : Token} {s r : List Char} (h : t.strip? s = some r) :
    r.length < s.length := by
  rw [strip?_eq_some_iff] at h
  have : 0 < t.letters.length := List.length_pos_iff.2 t.letters_ne_nil
  simp [h]
  omega

end Token

/-! ### Texts made of tokens -/

/-- The tokens that a text is made of, where the empty text is made of none.  A token is made of
itself.  At every place of another text the longest token that fits is taken first. -/
def tokensOf (s : List Char) : Option (List Token) :=
  if s = [] then some []
  else match Token.all.find? fun t => t.letters = s with
    | some t => some [t]
    | none =>
      Token.byLength.findSome? fun t =>
        match _h : t.strip? s with
        | none => none
        | some r => (tokensOf r).map (t :: ·)
  termination_by s.length
  decreasing_by exact Token.length_strip? ‹_›

theorem tokensOf_nil : tokensOf [] = some [] := by
  rw [tokensOf]
  rfl

/-- The longest token at the front of a token is the token itself. -/
theorem findSome?_byLength_letters (t : Token) :
    (Token.byLength.findSome? fun u =>
      (u.strip? t.letters).bind fun r => (tokensOf r).map (u :: ·)) = some [t] := by
  cases t <;> simp [Token.byLength, Token.strip?, Token.letters, tokensOf_nil]

/-- The tokens of a text that is not empty: the first token in the order of `Token.byLength` after
which the rest is made of tokens, and the tokens of that rest. -/
theorem tokensOf_of_ne_nil {s : List Char} (h : s ≠ []) :
    tokensOf s = Token.byLength.findSome? fun t =>
      (t.strip? s).bind fun r => (tokensOf r).map (t :: ·) := by
  rw [tokensOf, if_neg h]
  split
  · next t ht =>
    obtain rfl : t.letters = s := by simpa using List.find?_some ht
    exact (findSome?_byLength_letters t).symm
  · congr 1
    funext t
    split <;> simp [*]

/-- The letters of the tokens, one after the other, are the text. -/
theorem flatMap_letters_of_tokensOf {s : List Char} {ts : List Token}
    (h : tokensOf s = some ts) : ts.flatMap Token.letters = s := by
  induction hn : s.length using Nat.strongRecOn generalizing s ts with
  | ind n ih =>
    by_cases hs : s = []
    · subst hs
      rw [tokensOf_nil] at h
      cases h
      rfl
    · rw [tokensOf_of_ne_nil hs] at h
      obtain ⟨t, -, ht⟩ := List.exists_of_findSome?_eq_some h
      obtain ⟨r, hr, hts⟩ := Option.bind_eq_some_iff.1 ht
      obtain ⟨rest, hrest, rfl⟩ := Option.map_eq_some_iff.1 hts
      -- the token is at the front, and the rest is shorter
      rw [List.flatMap_cons, ih r.length (hn ▸ Token.length_strip? hr) hrest rfl]
      exact (Token.strip?_eq_some_iff.1 hr).symm

/-- The tokens that a text without separators is made of; the empty text has none and is not made
of tokens. -/
def tokenize (s : List Char) : Option (List Token) :=
  if s = [] then none else tokensOf s

end NoteArchive
