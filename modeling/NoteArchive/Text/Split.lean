/-!
# Splitting at a character

* `splitOn`: the pieces of a text between the occurrences of one character, empty pieces
  included, so that there is one piece more than there are occurrences.
* `intercalate_splitOn`: the pieces, joined by the character, are the text again.
* `unixNewlines`: a text whose line ends are all line feeds.
* `lines`: the lines of a text, whichever of the line ends it has.
-/

namespace NoteArchive.Text

/-- The pieces of `s` between the occurrences of `sep`. -/
def splitOn (sep : Char) : List Char → List (List Char)
  | [] => [[]]
  | c :: r =>
    if c = sep then [] :: splitOn sep r
    else match splitOn sep r with
      | [] => [[c]]
      | piece :: pieces => (c :: piece) :: pieces

theorem splitOn_nil (sep : Char) : splitOn sep [] = [[]] := rfl

theorem splitOn_ne_nil (sep : Char) (s : List Char) : splitOn sep s ≠ [] := by
  cases s with
  | nil => simp [splitOn]
  | cons c r =>
    rw [splitOn]
    split
    · simp
    · split <;> simp

theorem intercalate_splitOn (sep : Char) (s : List Char) :
    [sep].intercalate (splitOn sep s) = s := by
  induction s with
  | nil => rfl
  | cons c r ih =>
    obtain ⟨piece, pieces, h⟩ := List.exists_cons_of_ne_nil (splitOn_ne_nil sep r)
    rw [h] at ih
    by_cases hc : c = sep
    · subst hc
      simp [splitOn, h, List.intercalate] at ih ⊢
      exact ih
    · cases pieces <;>
        simp_all [splitOn, List.intercalate, List.intersperse]

/-- Carriage returns, alone or before a line feed, become line feeds. -/
def unixNewlines : List Char → List Char
  | [] => []
  | [c] => if c = '\r' then ['\n'] else [c]
  | c :: d :: r =>
    if c = '\r' then
      if d = '\n' then '\n' :: unixNewlines r else '\n' :: unixNewlines (d :: r)
    else c :: unixNewlines (d :: r)

/-- The lines of a text.  A line ends at a line feed, at a carriage return, or at the two together;
after the last of these ends there is one line more, which may be empty. -/
def lines (s : List Char) : List (List Char) := splitOn '\n' (unixNewlines s)

end NoteArchive.Text
