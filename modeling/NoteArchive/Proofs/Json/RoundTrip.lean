import NoteArchive.Json.Reader
import NoteArchive.Json.Writer

/-!
# Reading back what was written

* `readText_flatMap`: a text is read back, whatever characters it has.
* `Plain`: the values of settings, without halves of characters; `plainFields`: fields of such
  values.
* `pieces_plainFields`: what is written one after the other for an object of these, as characters.
  `writePieces_plainFields`: all of it is written.
* `readFields_write`: the fields of an object are read back, if their values are.
* `read_indented`: an object of texts and switches on lines of its own is read back.
-/

namespace NoteArchive.Json

open Text (Wide wide)

/-! ## Texts -/

section Text

variable (opening : List Char) {c e x : Char} (r : List Char)

theorem readText_quote : readText opening ('"' :: r) = .ok ([], r) := by
  rw [readText.eq_def]
  exact if_pos rfl

theorem readText_plain (hq : c ≠ '"') (hb : c ≠ '\\') (hc : 0x20 ≤ c.toNat) :
    readText opening (c :: r) = Step.push (.char c) (readText opening r) := by
  rw [readText.eq_def]
  dsimp only
  rw [if_neg hq, if_neg hb, if_neg (by omega)]

theorem readText_escaped (hu : e ≠ 'u') (he : escaped? e = some x) :
    readText opening ('\\' :: e :: r) = Step.push (.char x) (readText opening r) := by
  rw [readText.eq_def]
  dsimp only
  rw [if_neg (by decide), if_pos rfl]
  rw [if_neg hu, he]

theorem readText_code {a b d g f : Char} {n : Nat} (hn : code? a b d g = some n)
    (hh : isHighHalf n = false) :
    readText opening ('\\' :: 'u' :: a :: b :: d :: g :: f :: r) =
      Step.push (.ofCode n) (readText opening (f :: r)) := by
  rw [readText.eq_def]
  dsimp only
  rw [if_neg (by decide), if_pos rfl]
  rw [if_pos rfl, hn]
  dsimp only
  rw [if_neg (by simp [hh])]

/-- The number of a row of four hexadecimal digits. -/
def rowCode? : List Char → Option Nat
  | [a, b, d, g] => code? a b d g
  | _ => none

theorem of_rowCode? {digits : List Char} {n : Nat} (h : rowCode? digits = some n) :
    ∃ a b d g, digits = [a, b, d, g] ∧ code? a b d g = some n := by
  unfold rowCode? at h
  split at h
  · exact ⟨_, _, _, _, rfl, h⟩
  · cases h

theorem rowCode?_hexDigits : ∀ n < 0x20, rowCode? (Text.hexDigits 4 n) = some n := by
  decide +kernel

/-- A written character is read back, if something follows it. -/
theorem readText_escape (c : Char) {f : Char} :
    readText opening (escape c ++ f :: r) = Step.push (.char c) (readText opening (f :: r)) := by
  unfold escape
  split
  · subst_vars
    exact readText_escaped opening _ (by decide) rfl
  split
  · subst_vars
    exact readText_escaped opening _ (by decide) rfl
  split
  · subst_vars
    exact readText_escaped opening _ (by decide) rfl
  split
  · subst_vars
    exact readText_escaped opening _ (by decide) rfl
  split
  · subst_vars
    exact readText_escaped opening _ (by decide) rfl
  split
  · subst_vars
    exact readText_escaped opening _ (by decide) rfl
  split
  · subst_vars
    exact readText_escaped opening _ (by decide) rfl
  split
  · next hc =>
    -- control characters are written by their code, which is no half of a pair
    obtain ⟨a, b, d, g, hdigits, hcode⟩ := of_rowCode? (rowCode?_hexDigits c.toNat hc)
    have hhalf : isHighHalf c.toNat = false := by
      rw [isHighHalf, Bool.and_eq_false_iff]
      exact Or.inl (decide_eq_false (by omega))
    have hchar : Text.Point.ofCode c.toNat = .char c := by
      rw [Text.Point.ofCode_of_lt (by omega), Char.ofNat_toNat]
    have h := readText_code opening (f := f) r hcode hhalf
    rw [hchar] at h
    rw [hdigits]
    exact h
  · next hq hb _ _ _ _ _ hc =>
    exact readText_plain opening _ hq hb (by omega)

/-- A text is read back up to its closing quote. -/
theorem readText_flatMap (s : List Char) :
    readText opening (s.flatMap escape ++ '"' :: r) = .ok (s.map .char, r) := by
  induction s with
  | nil => exact readText_quote opening r
  | cons c rest ih =>
    -- something follows each character, at least the closing quote
    obtain ⟨f, more, hmore⟩ := List.exists_cons_of_ne_nil
      (l := rest.flatMap escape ++ '"' :: r) (by simp)
    rw [List.flatMap_cons, List.append_assoc, hmore, readText_escape, ← hmore, ih]
    rfl

end Text

/-! ## Texts and switches as values -/

/-- A text of characters as it is written. -/
def textChars (s : String) : List Char := '"' :: (s.toList.flatMap escape ++ ['"'])

/-- A text of characters, or a switch. -/
inductive Plain where
  | text (s : String)
  | bool (b : Bool)

namespace Plain

def toJson : Plain → Json
  | .text s => .text s
  | .bool b => .bool b

/-- The value as it is written. -/
def chars : Plain → List Char
  | .text s => textChars s
  | .bool b => (if b then "true" else "false").toList

end Plain

/-- Fields of such values. -/
def plainFields (fields : List (String × Plain)) : List (Wide × Json) :=
  fields.map fun f => (wide f.1, f.2.toJson)

/-! ## Objects as they are written -/

theorem writeText_wide (s : String) : writeText (wide s) = piece (textChars s) := by
  have hbody : (wide s).flatMap escapePoint = piece (s.toList.flatMap escape) := by
    rw [wide, piece, List.flatMap_map, List.map_flatMap]
    rfl
  rw [writeText, hbody, piece, piece, textChars, List.map_cons, List.map_append]
  rfl

theorem Plain.pieces_toJson (v : Plain) (k : Nat) : pieces k [] v.toJson = [piece v.chars] := by
  cases v with
  | text s => exact congrArg (fun t => [t]) (writeText_wide s)
  | bool b => rfl

/-- What is written for a field behind another one. -/
def fieldChars (k : Nat) (f : String × Plain) : List (List Char) :=
  [',' :: newline k, textChars f.1, [':', ' '], f.2.chars]

/-- What is written for an object. -/
def objectChars (f : String × Plain) (fields : List (String × Plain)) : List (List Char) :=
  [[], ['\x7b'], newline 1, textChars f.1, [':', ' '], f.2.chars] ++
    (fields.flatMap (fieldChars 1) ++ [newline 0, ['\x7d']])

theorem fieldPieces_plainFields (k : Nat) (fields : List (String × Plain)) :
    fieldPieces k (plainFields fields) = (fields.flatMap (fieldChars k)).map piece := by
  induction fields with
  | nil => rfl
  | cons f rest ih =>
    show piece _ :: (writeText (wide f.1) :: piece _ :: pieces k [] f.2.toJson ++
      fieldPieces k (plainFields rest)) = _
    rw [ih, writeText_wide, f.2.pieces_toJson, List.flatMap_cons, List.map_append]
    rfl

theorem pieces_plainFields (f : String × Plain) (fields : List (String × Plain)) :
    pieces 0 [] (.object (plainFields (f :: fields))) = (objectChars f fields).map piece := by
  show piece [] :: piece _ :: piece _ :: (writeText (wide f.1) :: piece _ ::
    pieces 1 [] f.2.toJson ++ (fieldPieces 1 (plainFields fields) ++ [piece _, piece _])) = _
  rw [writeText_wide, f.2.pieces_toJson, fieldPieces_plainFields, objectChars, List.map_append,
    List.map_append]
  rfl

theorem indented_plainFields (f : String × Plain) (fields : List (String × Plain)) :
    indented (.object (plainFields (f :: fields))) = (objectChars f fields).flatten := by
  rw [indented, pieces_plainFields, List.map_flatten, List.map_map]
  have hstand : ((List.map Text.Point.stand) ∘ piece) = id := by
    funext s
    exact (List.map_map).trans (List.map_id s)
  rw [hstand, List.map_id]

/-- Pieces of characters are all written. -/
theorem writePieces_map_piece (texts : List (List Char)) :
    writePieces (texts.map piece) = .ok (Text.Utf8.encode texts.flatten) := by
  induction texts with
  | nil => rfl
  | cons s rest ih =>
    have hpiece : Text.Utf8.encode? (piece s) = .ok (Text.Utf8.encode s) := by
      have hplain : Text.plain? (piece s) = some (String.ofList s) :=
        Text.plain?_eq_some_iff.2 (by rw [piece, wide, String.toList_ofList])
      rw [Text.Utf8.encode?, hplain]
      exact congrArg (fun cs => Except.ok (Text.Utf8.encode cs)) String.toList_ofList
    rw [List.map_cons, writePieces, hpiece, ih, List.flatten_cons]
    exact congrArg Except.ok List.flatMap_append.symm

theorem writePieces_plainFields (f : String × Plain) (fields : List (String × Plain)) :
    writePieces (pieces 0 [] (.object (plainFields (f :: fields)))) =
      .ok (Text.Utf8.encode (indented (.object (plainFields (f :: fields))))) := by
  rw [indented_plainFields, pieces_plainFields, writePieces_map_piece]

/-! ## Values -/

section Plain

variable {v : Plain} {r : List Char}

/-- A written value does not begin with a space. -/
theorem Plain.skipSpaces (v : Plain) (r : List Char) :
    Json.skipSpaces (v.chars ++ r) = v.chars ++ r := by
  cases v with
  | text s => rfl
  | bool b => cases b <;> rfl

theorem skipSpaces_newline (k : Nat) {c : Char} (hc : isSpace c = false) :
    Json.skipSpaces (newline k ++ c :: r) = c :: r := by
  have hblanks : ∀ n, Json.skipSpaces (List.replicate n ' ' ++ c :: r) = c :: r := by
    intro n
    induction n with
    | zero => exact List.dropWhile_cons_of_neg (by simp [hc])
    | succ n ih => exact ih
  exact hblanks (2 * k)

theorem Plain.readValue (v : Plain) (depth fuel : Nat) (r : List Char) :
    Json.readValue depth (fuel + 1) (v.chars ++ r) = .ok (v.toJson, r) := by
  cases v with
  | text s =>
    have hread := readText_flatMap (textChars s ++ r) r s.toList
    have hwrite : textChars s ++ r = '"' :: (s.toList.flatMap escape ++ '"' :: r) := by
      simp [textChars]
    rw [hwrite] at hread
    rw [chars, hwrite, Json.readValue.eq_def]
    dsimp only
    rw [if_pos rfl, hread]
    rfl
  | bool b =>
    cases b
    · rfl
    · rfl

end Plain

/-! ## Fields -/

theorem putField_of_not_mem {name : Wide} (value : Json) {fields : List (Wide × Json)}
    (h : name ∉ fields.map Prod.fst) : putField name value fields = fields ++ [(name, value)] := by
  induction fields with
  | nil => rfl
  | cons f rest ih =>
    rw [List.map_cons, List.mem_cons, not_or] at h
    rw [putField, if_neg (Ne.symm h.1), ih h.2]
    rfl

/-- A field with its name, as it is written. -/
def writeField (f : String × Plain) : List Char := textChars f.1 ++ [':', ' '] ++ f.2.chars

/-- The fields behind another one, as they are written. -/
def writeFields (k : Nat) (fields : List (String × Plain)) : List Char :=
  (fields.flatMap (fieldChars k)).flatten

theorem writeFields_cons (k : Nat) (f : String × Plain) (fields : List (String × Plain)) :
    writeFields k (f :: fields) = ',' :: (newline k ++ (writeField f ++ writeFields k fields)) := by
  simp [writeFields, fieldChars, writeField]

section Fields

variable {r t : List Char} {before : List (Wide × Json)} {f : String × Plain} {c : Char}

/-- One field is read, and the next character decides how it goes on. -/
theorem readFields_field (hfresh : wide f.1 ∉ before.map Prod.fst) (depth fuel : Nat)
    (hr : skipSpaces r = c :: t) :
    readFields depth (fuel + 2) before (writeField f ++ r) =
      if c = '\x7d' then .ok (before ++ [(wide f.1, f.2.toJson)], t)
      else if c = ',' then
        readFields depth (fuel + 1) (before ++ [(wide f.1, f.2.toJson)]) (skipSpaces t)
      else .error (.noComma, c :: t) := by
  have hname := readText_flatMap (writeField f ++ r) (':' :: ' ' :: (f.2.chars ++ r)) f.1.toList
  have hwrite : writeField f ++ r =
      '"' :: (f.1.toList.flatMap escape ++ '"' :: ':' :: ' ' :: (f.2.chars ++ r)) := by
    simp [writeField, textChars]
  have hcolon : skipSpaces (':' :: ' ' :: (f.2.chars ++ r)) = ':' :: ' ' :: (f.2.chars ++ r) := rfl
  have hvalue : skipSpaces (' ' :: (f.2.chars ++ r)) = f.2.chars ++ r := f.2.skipSpaces r
  -- the name, the colon and the value are read one after the other
  rw [hwrite] at hname ⊢
  rw [readFields.eq_def]
  dsimp only
  rw [if_pos rfl, hname]
  dsimp only
  rw [hcolon]
  dsimp only
  rw [if_pos rfl, hvalue, f.2.readValue depth fuel r]
  dsimp only
  rw [hr, ← putField_of_not_mem f.2.toJson hfresh]
  rfl

/-- The fields of an object on lines of their own are read back. -/
theorem readFields_write (depth k fuel : Nat) {fields : List (String × Plain)}
    (hnames : ((before ++ plainFields (f :: fields)).map Prod.fst).Nodup)
    (hfuel : fields.length ≤ fuel) (r : List Char) :
    readFields depth (fuel + 2) before
        (writeField f ++ (writeFields k fields ++ (newline 0 ++ '\x7d' :: r))) =
      .ok (before ++ plainFields (f :: fields), r) := by
  have hfresh : wide f.1 ∉ before.map Prod.fst := by
    rw [List.map_append, List.nodup_append] at hnames
    intro hm
    exact hnames.2.2 (wide f.1) hm (wide f.1) List.mem_cons_self rfl
  -- the field that is read joins those before it, and the reader has less fuel
  induction fields generalizing before f fuel with
  | nil =>
    have hnext : skipSpaces (newline 0 ++ '\x7d' :: r) = '\x7d' :: r :=
      skipSpaces_newline 0 (by decide)
    have hnone : writeFields k [] = [] := rfl
    rw [hnone, List.nil_append, readFields_field hfresh depth fuel hnext, if_pos rfl]
    rfl
  | cons g rest ih =>
    obtain ⟨fuel, rfl⟩ : ∃ n, fuel = n + 1 := ⟨fuel - 1, by simp at hfuel; omega⟩
    have hwrite : writeFields k (g :: rest) ++ (newline 0 ++ '\x7d' :: r) =
        ',' :: (newline k ++ (writeField g ++
          (writeFields k rest ++ (newline 0 ++ '\x7d' :: r)))) := by
      rw [writeFields_cons]
      simp only [List.cons_append, List.append_assoc]
    have hquote : ∃ t, writeField g ++ (writeFields k rest ++ (newline 0 ++ '\x7d' :: r)) =
        '"' :: t := ⟨_, rfl⟩
    obtain ⟨t, ht⟩ := hquote
    have hnext : skipSpaces (newline k ++ (writeField g ++
        (writeFields k rest ++ (newline 0 ++ '\x7d' :: r)))) =
        writeField g ++ (writeFields k rest ++ (newline 0 ++ '\x7d' :: r)) := by
      rw [ht]
      exact skipSpaces_newline k (by decide)
    rw [hwrite, readFields_field hfresh depth (fuel + 1) rfl, if_neg (by decide), if_pos rfl,
      hnext]
    have hall : before ++ plainFields (f :: g :: rest) =
        before ++ [(wide f.1, f.2.toJson)] ++ plainFields (g :: rest) := List.append_cons _ _ _
    rw [hall] at hnames ⊢
    refine ih fuel hnames (by simpa using hfuel) ?_
    rw [List.map_append, List.nodup_append] at hnames
    intro hm
    exact hnames.2.2 (wide g.1) hm (wide g.1) List.mem_cons_self rfl

end Fields

theorem length_le_writeFields (k : Nat) (fields : List (String × Plain)) :
    fields.length ≤ (writeFields k fields).length := by
  induction fields with
  | nil => exact Nat.zero_le _
  | cons g rest ih =>
    simp only [writeFields_cons, List.length_cons, List.length_append]
    omega

theorem indented_eq_writeFields (f : String × Plain) (fields : List (String × Plain)) :
    indented (.object (plainFields (f :: fields))) =
      '\x7b' ::
        (newline 1 ++ (writeField f ++ (writeFields 1 fields ++ (newline 0 ++ ['\x7d'])))) := by
  rw [indented_plainFields]
  simp [objectChars, writeField, writeFields]

/-- An object of texts and switches on lines of its own is read back, if the reader goes down to
objects at all. -/
theorem read_indented {f : String × Plain} {fields : List (String × Plain)}
    (hnames : ((plainFields (f :: fields)).map Prod.fst).Nodup) (limit : Nat) :
    read (indented (.object (plainFields (f :: fields)))) (limit + 1) =
      .ok (.object (plainFields (f :: fields))) := by
  have hwrite := indented_eq_writeFields f fields
  generalize hbody : writeField f ++ (writeFields 1 fields ++ (newline 0 ++ ['\x7d'])) = body
    at hwrite
  obtain ⟨t, rfl⟩ : ∃ t, body = '"' :: t := ⟨_, hbody.symm⟩
  have hnext : skipSpaces (newline 1 ++ '"' :: t) = '"' :: t := skipSpaces_newline 1 (by decide)
  have hspaces : skipSpaces ('\x7b' :: (newline 1 ++ '"' :: t)) =
      '\x7b' :: (newline 1 ++ '"' :: t) := rfl
  obtain ⟨fuel, hfuel, hle⟩ : ∃ fuel,
      2 * ('\x7b' :: (newline 1 ++ '"' :: t)).length + 2 = fuel + 2 + 1 ∧
        fields.length ≤ fuel := by
    have hlength := length_le_writeFields 1 fields
    have hall := congrArg List.length hbody
    rw [List.length_append, List.length_append] at hall
    refine ⟨2 * ('\x7b' :: (newline 1 ++ '"' :: t)).length - 1, ?_, ?_⟩ <;>
      simp only [List.length_cons, List.length_append] at hall ⊢ <;> omega
  -- the reader has more fuel than there are fields
  have hfields : readFields limit (fuel + 2) []
      (writeField f ++ (writeFields 1 fields ++ (newline 0 ++ ['\x7d']))) =
        .ok (plainFields (f :: fields), []) :=
    readFields_write limit 1 fuel hnames hle []
  rw [hbody] at hfields
  rw [hwrite, read.eq_def]
  dsimp only
  rw [if_neg (by decide), hspaces, hfuel, readValue.eq_def]
  dsimp only
  rw [if_neg (by decide), if_pos rfl, hnext]
  dsimp only
  rw [if_neg (by decide), hfields]
  rfl

/-- A reader that does not go down to objects stops at its limit. -/
theorem read_indented_zero (f : String × Plain) (fields : List (String × Plain)) :
    ∃ e, read (indented (.object (plainFields (f :: fields)))) 0 = .error e ∧
      e.fault.isLimit = true := by
  rw [indented_eq_writeFields]
  exact ⟨_, rfl, rfl⟩

/-! ## Line ends -/

theorem return_not_mem_hexDigits : ∀ n < 0x20, '\r' ∉ Text.hexDigits 4 n := by
  decide +kernel

theorem return_not_mem_escape (c : Char) : '\r' ∉ escape c := by
  unfold escape
  split
  · decide
  split
  · decide
  split
  · decide
  split
  · decide
  split
  · decide
  split
  · decide
  split
  · decide
  split
  · next hc => simp [return_not_mem_hexDigits c.toNat hc]
  · next hc _ _ _ _ => simpa using Ne.symm hc

theorem return_not_mem_textChars (s : String) : '\r' ∉ textChars s := by
  have hbody : '\r' ∉ s.toList.flatMap escape := by
    rw [List.mem_flatMap]
    rintro ⟨c, -, hc⟩
    exact return_not_mem_escape c hc
  simp [textChars, hbody]

theorem return_not_mem_newline (k : Nat) : '\r' ∉ newline k := by
  simp [newline, List.mem_replicate]

theorem Plain.return_not_mem (v : Plain) : '\r' ∉ v.chars := by
  cases v with
  | text s => exact return_not_mem_textChars s
  | bool b => cases b <;> simp [chars]

theorem return_not_mem_writeField (f : String × Plain) : '\r' ∉ writeField f := by
  simp [writeField, return_not_mem_textChars, f.2.return_not_mem]

theorem return_not_mem_writeFields (k : Nat) (fields : List (String × Plain)) :
    '\r' ∉ writeFields k fields := by
  induction fields with
  | nil => exact List.not_mem_nil
  | cons g rest ih =>
    simp [writeFields_cons, return_not_mem_newline, return_not_mem_writeField, ih]

/-- The lines of a written object end with line feeds alone. -/
theorem return_not_mem_indented (f : String × Plain) (fields : List (String × Plain)) :
    '\r' ∉ indented (.object (plainFields (f :: fields))) := by
  simp [indented_eq_writeFields, return_not_mem_newline, return_not_mem_writeField,
    return_not_mem_writeFields]

end NoteArchive.Json
