/-!
# Texts with halves of characters

A JSON text may write half a character alone, by the code of a surrogate.  It is a text like any
other, which can be compared, cut and shown by its codes, but no encoding has bytes for it.

* `Point`: a character, or half a character.
* `Wide`: a text of points, and `wide`: a text of characters as one of these.
* `plain?`: the text of characters, where there is no half.  `plain?_eq_some_iff`: it is the text of
  which this one is made.
* `stand`: the text with another character for each half.  It has the same length, and this
  character is no blank, no slash, no point and no letter.
-/

namespace NoteArchive.Text

/-- A character, or half a character: the place of its code among those from `U+D800` to
`U+DFFF`. -/
inductive Point where
  | char (c : Char)
  | half (place : Fin 0x800)
  deriving Repr, DecidableEq

namespace Point

def ofCode (n : Nat) : Point :=
  if h : 0xd800 ≤ n ∧ n < 0xe000 then .half ⟨n - 0xd800, by omega⟩ else .char (Char.ofNat n)

def code : Point → Nat
  | .char c => c.toNat
  | .half place => 0xd800 + place

/-- The point is a whole character. -/
def isChar : Point → Bool
  | .char _ => true
  | .half _ => false

/-- The character that stands for a point where a text of characters is needed. -/
def stand : Point → Char
  | .char c => c
  | .half _ => '\ufffd'

theorem ofCode_of_lt {n : Nat} (h : n < 0xd800) : ofCode n = .char (Char.ofNat n) :=
  dif_neg fun hn => absurd hn.1 (Nat.not_le.2 h)

end Point

/-- A text whose characters may be halved. -/
abbrev Wide := List Point

/-- A text of characters. -/
def wide (s : String) : Wide := s.toList.map .char

instance : Coe String Wide := ⟨wide⟩

/-- The characters of a text, if no half of one is in it. -/
def chars? : Wide → Option (List Char)
  | [] => some []
  | .char c :: rest => (chars? rest).map (c :: ·)
  | .half _ :: _ => none

@[inherit_doc chars?]
def plain? (t : Wide) : Option String := (chars? t).map String.ofList

/-- The text with another character for each half. -/
def stand (t : Wide) : String := String.ofList (t.map Point.stand)

theorem wide_append (s r : String) : wide (s ++ r) = wide s ++ wide r := by
  simp [wide]

@[simp]
theorem stand_wide (s : String) : stand (wide s) = s := by
  rw [stand, wide, List.map_map]
  exact (congrArg String.ofList (List.map_id _)).trans String.ofList_toList

theorem wide_inj {s r : String} : wide s = wide r ↔ s = r :=
  ⟨fun h => by rw [← stand_wide s, h, stand_wide], congrArg wide⟩

theorem chars?_eq_some_iff {t : Wide} {cs : List Char} :
    chars? t = some cs ↔ t = cs.map .char := by
  induction t generalizing cs with
  | nil => cases cs <;> simp [chars?]
  | cons p rest ih =>
    cases p with
    | half place => cases cs <;> simp [chars?]
    | char c =>
      rw [chars?, Option.map_eq_some_iff]
      simp only [ih]
      cases cs with
      | nil => simp
      | cons d ds =>
        constructor
        · rintro ⟨ds', rfl, h⟩
          cases h
          rfl
        · intro h
          obtain ⟨hc, rfl⟩ := List.cons.inj h
          exact ⟨ds, rfl, by rw [Point.char.inj hc]⟩

/-- A text without halves is made of its characters. -/
theorem plain?_eq_some_iff {t : Wide} {s : String} : plain? t = some s ↔ t = wide s := by
  rw [plain?, Option.map_eq_some_iff, wide]
  simp only [chars?_eq_some_iff]
  constructor
  · rintro ⟨cs, rfl, rfl⟩
    rw [String.toList_ofList]
  · rintro rfl
    exact ⟨s.toList, rfl, String.ofList_toList⟩

@[simp]
theorem plain?_wide (s : String) : plain? (wide s) = some s := plain?_eq_some_iff.2 rfl

theorem chars?_eq_none_iff {t : Wide} : chars? t = none ↔ ∃ place, .half place ∈ t := by
  induction t with
  | nil => simp [chars?]
  | cons p rest ih => cases p <;> simp [chars?, ih]

theorem plain?_eq_none_iff {t : Wide} : plain? t = none ↔ ∃ place, .half place ∈ t := by
  rw [plain?, Option.map_eq_none_iff, chars?_eq_none_iff]

theorem chars?_append (t u : Wide) :
    chars? (t ++ u) = (chars? t).bind fun cs => (chars? u).map (cs ++ ·) := by
  induction t with
  | nil => simp [chars?]
  | cons p rest ih =>
    cases p with
    | half place => rfl
    | char c =>
      rw [List.cons_append, chars?, ih, chars?]
      cases chars? rest <;> cases chars? u <;> rfl

/-- There is no half in a text exactly when there is none in its parts. -/
theorem plain?_append (t u : Wide) :
    plain? (t ++ u) = (plain? t).bind fun s => (plain? u).map (s ++ ·) := by
  unfold plain?
  rw [chars?_append]
  cases chars? t <;> cases chars? u <;> simp

theorem plain?_append_wide (t : Wide) (s : String) :
    plain? (t ++ wide s) = (plain? t).map (· ++ s) := by
  rw [plain?_append, plain?_wide]
  cases plain? t <;> rfl

theorem plain?_wide_append (s : String) (t : Wide) :
    plain? (wide s ++ t) = (plain? t).map (s ++ ·) := by
  rw [plain?_append, plain?_wide]
  rfl

end NoteArchive.Text
