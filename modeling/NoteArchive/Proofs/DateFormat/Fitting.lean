import Mathlib.Data.List.Forall2
import Mathlib.Data.List.TakeWhile
import Mathlib.Tactic.Common
import NoteArchive.Proofs.DateFormat.Matching

/-!
# What a match says about a name

* `DateFormat.Fits`: the pieces of a format, and a text for each of its tokens, make up a name.
* `fits_of_captures`: the texts that the tokens match in a name make it up.
* `readDate_eq_of_captures`: all of them are read.
* `Piece.render`, `render_eq_pieces`: what a format writes for a date, piece by piece.
* `IsNameChar`: the characters of such names.  A point is not among them.
-/

namespace NoteArchive

open DateFormat

/-! ## What a token can take -/

namespace Token

variable {t : Token} {s : List Char} {n : Nat}

theorem le_of_mem_lengths (h : n ∈ t.lengths s) :
    n ≤ (s.takeWhile t.admits).length ∧ if t.isOpen then t.width ≤ n else n = t.width := by
  unfold lengths at h
  dsimp only at h
  split at h
  · cases h
  · next hrun =>
    cases hopen : t.isOpen <;> rw [hopen] at h
    · rw [if_neg (by decide), List.mem_singleton] at h
      simp only [Bool.false_eq_true, if_false]
      omega
    · rw [if_pos rfl, List.mem_reverse, List.mem_range'_1] at h
      simp only [if_true]
      omega

/-- A text that a token takes at the front of another one is one that it matches. -/
theorem accepts_take (h : n ∈ t.lengths s) : t.accepts (s.take n) = true := by
  obtain ⟨hle, hwidth⟩ := le_of_mem_lengths h
  have hfront : s.take n = (s.takeWhile t.admits).take n := by
    conv_lhs => rw [← List.takeWhile_append_dropWhile (p := t.admits) (l := s)]
    exact List.take_append_of_le_length hle
  have hlength : (s.take n).length = n := by
    rw [hfront, List.length_take]
    omega
  rw [accepts_iff, hlength]
  refine ⟨fun c hc => ?_, hwidth⟩
  rw [hfront] at hc
  exact List.mem_takeWhile_imp (List.mem_of_mem_take hc)

end Token

/-! ## Names made of texts -/

namespace DateFormat

/-- The separators, and in the places of the tokens texts which they match, make up a name. -/
inductive Fits : List Piece → List (List Char) → List Char → Prop where
  | nil : Fits [] [] []
  | separator {ps : List Piece} {xs : List (List Char)} {s : List Char} (c : Char)
      (rest : Fits ps xs s) : Fits (.separator c :: ps) xs (c :: s)
  | token {ps : List Piece} {xs : List (List Char)} {s a : List Char} {t : Token}
      (ha : t.accepts a = true) (rest : Fits ps xs s) : Fits (.token t :: ps) (a :: xs) (a ++ s)

variable {ps : List Piece} {xs : List (List Char)} {s : List Char}

/-- The texts that the tokens match in a name make it up, up to the suffix. -/
theorem fits_of_captures (h : captures ps s = some xs) :
    ∃ r, s = r ++ noteSuffix ∧ Fits ps xs r := by
  induction ps generalizing s xs with
  | nil =>
    unfold captures at h
    split at h
    · next hs =>
      cases h
      exact ⟨[], hs, .nil⟩
    · cases h
  | cons p ps ih =>
    cases p with
    | separator c =>
      unfold captures at h
      split at h
      · cases h
      · next d r =>
        split at h
        · next hd =>
          obtain ⟨r, rfl, hfits⟩ := ih h
          exact ⟨c :: r, by rw [hd, List.cons_append], .separator c hfits⟩
        · cases h
    | token t =>
      -- the length at which the search stopped is one that the token can take
      unfold captures at h
      obtain ⟨n, hn, hrest⟩ := List.exists_of_findSome?_eq_some h
      obtain ⟨ys, hys, rfl⟩ := Option.map_eq_some_iff.1 hrest
      obtain ⟨r, hr, hfits⟩ := ih hys
      refine ⟨s.take n ++ r, ?_, .token (Token.accepts_take hn) hfits⟩
      rw [List.append_assoc, ← hr, List.take_append_drop]

/-- There is a text for each token, which matches it. -/
theorem Fits.forall₂_accepts (h : Fits ps xs s) :
    List.Forall₂ (fun t a => t.accepts a = true) (ps.filterMap Piece.token?) xs := by
  induction h with
  | nil => exact .nil
  | separator c rest ih => exact ih
  | token ha rest ih => exact .cons ha ih

theorem Fits.ne_nil (h : Fits ps xs s) {a : List Char} (ha : a ∈ xs) : a ≠ [] := by
  induction h with
  | nil => cases ha
  | separator c rest ih => exact ih ha
  | token haccepts rest ih =>
    rcases List.mem_cons.1 ha with rfl | ha
    · exact Token.ne_nil_of_accepts haccepts
    · exact ih ha

/-- Only of nothing at all an empty name is made. -/
theorem Fits.eq_nil_iff (h : Fits ps xs s) : s = [] ↔ ps = [] := by
  cases h with
  | nil => simp
  | separator c rest => simp
  | token ha rest => simp [Token.ne_nil_of_accepts ha]

end DateFormat

/-- A name that matches is read text by text; none of the texts is empty, which would be left
out. -/
theorem Compiled.readDate_eq_of_captures {c : Compiled} {stem : String} {texts : List (List Char)}
    (h : c.captures (stem.toList ++ noteSuffix) = some texts) :
    c.readDate stem = (do
      let known ← readSlots ⟨none, none, none⟩ 0 (c.tokens.map Token.slot) texts
      known.complete) := by
  obtain ⟨r, -, hfits⟩ := fits_of_captures h
  have hfull : texts.filter (! ·.isEmpty) = texts := by
    rw [List.filter_eq_self]
    intro a ha
    simpa using hfits.ne_nil ha
  rw [Compiled.readDate, Compiled.readDateBy, h]
  dsimp only
  rw [hfull]

namespace DateFormat

variable {ps : List Piece} {xs : List (List Char)} {s : List Char}

/-! ## What a format writes, piece by piece -/

/-- What a piece writes for a date. -/
def Piece.render (d : Date) : Piece → List Char
  | .separator c => [c]
  | .token t => t.render d

theorem Part.render_eq_pieces (d : Date) (p : Part) :
    p.render d = p.pieces.flatMap (Piece.render d) := by
  cases p with
  | separator c => rfl
  | segment s =>
    show ((tokenize s).getD []).flatMap (Token.render d) =
      (((tokenize s).getD []).map Piece.token).flatMap (Piece.render d)
    rw [List.flatMap_map]
    rfl

theorem render_eq_pieces (f : String) (d : Date) :
    (render f d).toList = (Compiled.ofParts f).pieces.flatMap (Piece.render d) := by
  show (String.ofList _).toList = ((parts f.toList).flatMap Part.pieces).flatMap _
  rw [String.toList_ofList, List.flatMap_assoc]
  congr 1
  funext p
  exact p.render_eq_pieces d

/-! ## The characters of names -/

/-- The characters of which the names of notes are made. -/
def IsNameChar (c : Char) : Prop :=
  Text.isAsciiDigit c = true ∨ Text.isAsciiLetter c = true ∨ isSeparator c = true

theorem not_isNameChar_point : ¬ IsNameChar '.' := by
  unfold IsNameChar
  decide

theorem isNameChar_of_admits {t : Token} {c : Char} (h : t.admits c = true) : IsNameChar c := by
  cases t with
  | mmm => exact Or.inr (Or.inl h)
  | mmmm => exact Or.inr (Or.inl h)
  | _ => exact Or.inl h

theorem isSeparator_of_mem_pieces {f : String} {c : Char}
    (h : Piece.separator c ∈ (Compiled.ofParts f).pieces) : isSeparator c = true := by
  obtain ⟨p, hp, hc⟩ := List.mem_flatMap.1 h
  cases p with
  | separator c' =>
    cases List.mem_singleton.1 hc
    exact isSeparator_of_mem_parts hp
  | segment s =>
    obtain ⟨t, -, ht⟩ := List.mem_map.1 hc
    cases ht

theorem Fits.isNameChar (h : Fits ps xs s)
    (hps : ∀ c, Piece.separator c ∈ ps → isSeparator c = true) : ∀ c ∈ s, IsNameChar c := by
  induction h with
  | nil => simp
  | separator c rest ih =>
    intro c' hc
    rcases List.mem_cons.1 hc with rfl | hc
    · exact Or.inr (Or.inr (hps _ List.mem_cons_self))
    · exact ih (fun c hc => hps c (List.mem_cons_of_mem _ hc)) c' hc
  | token ha rest ih =>
    intro c' hc
    rcases List.mem_append.1 hc with hc | hc
    · exact isNameChar_of_admits ((Token.accepts_iff.1 ha).1 c' hc)
    · exact ih (fun c hc => hps c (List.mem_cons_of_mem _ hc)) c' hc

theorem isNameChar_of_mem_token_render {d : Date} (hd : d.IsReal) {t : Token} {c : Char}
    (h : c ∈ t.render d) : IsNameChar c := by
  obtain ⟨-, -, hmonth, hmonth', -, -⟩ := hd
  have hletters := List.all_eq_true.1 (isAsciiLetter_monthTitle hmonth hmonth')
  have hdigits : ∀ width n, c ∈ Date.padded width n → Text.isAsciiDigit c = true :=
    fun width n hc => List.all_eq_true.1 (Date.all_isAsciiDigit_padded width n) c hc
  cases t with
  | mmm => exact Or.inr (Or.inl (hletters c (List.mem_of_mem_take h)))
  | mmmm => exact Or.inr (Or.inl (hletters c h))
  | _ => exact Or.inl (hdigits _ _ h)

theorem isNameChar_of_mem_render {f : String} {d : Date} (hd : d.IsReal) {c : Char}
    (h : c ∈ (render f d).toList) : IsNameChar c := by
  rw [render_eq_pieces] at h
  obtain ⟨p, hp, hc⟩ := List.mem_flatMap.1 h
  cases p with
  | separator c' =>
    cases List.mem_singleton.1 hc
    exact Or.inr (Or.inr (isSeparator_of_mem_pieces hp))
  | token t => exact isNameChar_of_mem_token_render hd hc

end DateFormat

end NoteArchive
