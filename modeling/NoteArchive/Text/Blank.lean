/-!
# Blank characters and trimming

A target folder is read without the blanks around it.  "Blank" is the Unicode notion: the
characters with the property `White_Space`, and the four information separators
`U+001C` to `U+001F`, twenty-nine characters in all.

* `isBlank`: the class.
* `trim`: a text without the characters of a class at its two ends.
* `trim_eq_nil_iff`: nothing is left exactly when every character is in the class.
-/

namespace NoteArchive.Text

/-- The code points of the blank characters, in order. -/
def blankCodes : List Nat :=
  [0x09, 0x0a, 0x0b, 0x0c, 0x0d, 0x1c, 0x1d, 0x1e, 0x1f, 0x20, 0x85, 0xa0, 0x1680, 0x2000,
   0x2001, 0x2002, 0x2003, 0x2004, 0x2005, 0x2006, 0x2007, 0x2008, 0x2009, 0x200a, 0x2028,
   0x2029, 0x202f, 0x205f, 0x3000]

/-- A character is blank when its code point is one of `blankCodes`. -/
def isBlank (c : Char) : Bool := blankCodes.contains c.toNat

variable {α β : Type}

/-- The text `s` without what satisfies `p` at both of its ends. -/
def trim (p : α → Bool) (s : List α) : List α :=
  ((s.dropWhile p).reverse.dropWhile p).reverse

/-- Of a text that is made of another one the same is taken away. -/
theorem trim_map (f : β → α) (p : α → Bool) (s : List β) :
    trim p (s.map f) = (trim (p ∘ f) s).map f := by
  rw [trim, trim, List.dropWhile_map, ← List.map_reverse, List.dropWhile_map, List.map_reverse]

theorem dropWhile_eq_nil (p : α → Bool) (s : List α) :
    s.dropWhile p = [] ↔ ∀ c ∈ s, p c = true := by
  induction s with
  | nil => simp
  | cons c r ih => by_cases h : p c = true <;> simp [h, ih]

/-- Nothing is left exactly when there was nothing else than trimmed characters. -/
theorem trim_eq_nil_iff (p : α → Bool) (s : List α) :
    trim p s = [] ↔ ∀ c ∈ s, p c = true := by
  rw [trim, List.reverse_eq_nil_iff, dropWhile_eq_nil]
  simp only [List.mem_reverse]
  constructor
  · intro h
    cases hs : s.dropWhile p with
    | nil => exact (dropWhile_eq_nil p s).1 hs
    | cons d t =>
      have hd : p d = true := h d (by simp [hs])
      exact absurd hd (by simpa [hs] using List.head?_dropWhile_not p s)
  · intro h c hc
    exact h c (List.dropWhile_subset p hc)

end NoteArchive.Text
