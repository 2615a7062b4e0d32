import Mathlib.Data.List.Chain
import Mathlib.Tactic.Common
import NoteArchive.DateFormat.Compiled

/-!
# Where the tokens of a format stand

* `exists_tokensOf`: a text made of tokens, in whatever way, is cut into tokens.
* `not_letters_after_mmm`: the short name of a month is followed by no other name of a month.
* `isChain_parts`: segments do not stand side by side.
* `Part.IsProper`, `isProper_of_mem_parts`: the parts are separators, and segments without them.
* `ofParts_tokens`: the tokens of a compiled format, part by part.
-/

namespace NoteArchive

/-! ## Cutting a text into tokens -/

theorem tokensOf_cons_of_tokensOf {t : Token} {ts : List Token} {s : List Char}
    (h : tokensOf s = some (t :: ts)) : ∃ r, s = t.letters ++ r ∧ tokensOf r = some ts := by
  have hs : s ≠ [] := by
    rintro rfl
    rw [tokensOf_nil] at h
    cases h
  rw [tokensOf_of_ne_nil hs] at h
  obtain ⟨u, -, hu⟩ := List.exists_of_findSome?_eq_some h
  obtain ⟨r, hr, hts⟩ := Option.bind_eq_some_iff.1 hu
  obtain ⟨rest, hrest, heq⟩ := Option.map_eq_some_iff.1 hts
  cases heq
  exact ⟨r, Token.strip?_eq_some_iff.1 hr, hrest⟩

/-- The text that is left after some of its tokens is cut into the other ones. -/
theorem tokensOf_of_append {before ts : List Token} {s : List Char}
    (h : tokensOf s = some (before ++ ts)) : tokensOf (ts.flatMap Token.letters) = some ts := by
  induction before generalizing s with
  | nil =>
    rw [List.nil_append] at h
    rw [flatMap_letters_of_tokensOf h]
    exact h
  | cons t before ih =>
    obtain ⟨r, -, hr⟩ := tokensOf_cons_of_tokensOf h
    exact ih hr

/-- A text that is made of tokens in some way is cut into tokens. -/
theorem exists_tokensOf (ts : List Token) :
    ∃ us, tokensOf (ts.flatMap Token.letters) = some us := by
  induction ts with
  | nil => exact ⟨[], tokensOf_nil⟩
  | cons t ts ih =>
    obtain ⟨us, hus⟩ := ih
    rw [List.flatMap_cons]
    have hs : t.letters ++ ts.flatMap Token.letters ≠ [] := by
      simp [t.letters_ne_nil]
    have hstrip : t.strip? (t.letters ++ ts.flatMap Token.letters) =
        some (ts.flatMap Token.letters) := Token.strip?_eq_some_iff.2 rfl
    rw [tokensOf_of_ne_nil hs, ← Option.isSome_iff_exists, List.findSome?_isSome_iff]
    exact ⟨t, t.mem_byLength, by simp [hstrip, hus]⟩

/-- Where the full name of a month fits and the rest can be cut, it is taken. -/
theorem tokensOf_mmmm {ts : List Token} {r : List Char} (h : tokensOf r = some ts) :
    tokensOf (Token.mmmm.letters ++ r) = some (.mmmm :: ts) := by
  have hyear : Token.yyyy.strip? (Token.mmmm.letters ++ r) = none := rfl
  have hmonth : Token.mmmm.strip? (Token.mmmm.letters ++ r) = some r :=
    Token.strip?_eq_some_iff.2 rfl
  rw [tokensOf_of_ne_nil (by simp [Token.letters]), Token.byLength, List.findSome?_cons_of_isNone,
    List.findSome?_cons_of_isSome]
  · rw [hmonth]
    simp [h]
  · rw [hmonth]
    simp [h]
  · rw [hyear]
    rfl

/-- The letters of the short name and another name of a month begin with those of the full name. -/
theorem not_letters_after_mmm {t : Token} {before ts : List Token} {s : List Char}
    (h : tokensOf s = some (before ++ .mmm :: t :: ts)) : t ≠ .mmm ∧ t ≠ .mmmm := by
  have hrest := tokensOf_of_append h
  refine ⟨fun ht => ?_, fun ht => ?_⟩
  · -- six letters are cut after the fourth one
    subst ht
    obtain ⟨us, hus⟩ := exists_tokensOf (.mm :: ts)
    have hcut := tokensOf_mmmm hus
    rw [show (Token.mmm :: .mmm :: ts).flatMap Token.letters =
      Token.mmmm.letters ++ (Token.mm :: ts).flatMap Token.letters from rfl, hcut] at hrest
    -- the cut takes the full name first, so it does not begin with a short one
    cases hrest
  · subst ht
    obtain ⟨us, hus⟩ := exists_tokensOf (.mmm :: ts)
    have hcut := tokensOf_mmmm hus
    rw [show (Token.mmm :: .mmmm :: ts).flatMap Token.letters =
      Token.mmmm.letters ++ (Token.mmm :: ts).flatMap Token.letters from rfl, hcut] at hrest
    cases hrest

namespace DateFormat

/-! ## The parts of a format -/

/-- The tokens of a part; an unrecognised part has none. -/
def Part.tokens (p : Part) : List Token := p.tokens?.getD []

theorem Part.filterMap_pieces (p : Part) : p.pieces.filterMap Piece.token? = p.tokens := by
  cases p with
  | separator c => rfl
  | segment s =>
    show (((tokenize s).getD []).map Piece.token).filterMap Piece.token? = (tokenize s).getD []
    rw [List.filterMap_map]
    exact List.filterMap_some

/-- The tokens of a recognised part are those into which its text is cut. -/
theorem Part.tokensOf_tokens {p : Part} (h : p.tokens ≠ []) :
    tokensOf p.letters = some p.tokens := by
  cases p with
  | separator c => exact absurd rfl h
  | segment s =>
    have hs : s ≠ [] := by
      rintro rfl
      exact h rfl
    have htokens : (segment s).tokens = (tokensOf s).getD [] := by
      show (tokenize s).getD [] = _
      rw [tokenize, if_neg hs]
    show tokensOf s = _
    rw [htokens] at h ⊢
    cases hts : tokensOf s with
    | none => simp [hts] at h
    | some ts => rfl

/-- A row of characters between separators. -/
def Part.isSegment : Part → Bool
  | .separator _ => false
  | .segment _ => true

theorem isChain_parts (f : List Char) :
    (parts f).IsChain fun p q => ¬ (p.isSegment = true ∧ q.isSegment = true) := by
  induction f with
  | nil => exact .nil
  | cons c r ih =>
    rw [parts]
    split
    · cases hr : parts r with
      | nil => exact .singleton _
      | cons q rest =>
        rw [hr] at ih
        exact .cons_cons (by simp [Part.isSegment]) ih
    · -- the character comes into a segment, or makes a segment in front of a separator
      cases hr : parts r with
      | nil => exact .singleton _
      | cons q rest =>
        rw [hr] at ih
        cases q with
        | separator d => exact .cons_cons (by simp [Part.isSegment]) ih
        | segment s =>
          show (Part.segment (c :: s) :: rest).IsChain _
          exact ih.imp_head (x := Part.segment s) (y := Part.segment (c :: s)) fun h => h

/-- A separator, or a row of other characters that is not empty. -/
def Part.IsProper : Part → Prop
  | .separator c => isSeparator c = true
  | .segment s => s ≠ [] ∧ ∀ c ∈ s, isSeparator c = false

/-- A character that is no separator makes a proper segment, or a proper segment longer. -/
theorem isProper_consPart {c : Char} {ps : List Part} (hc : isSeparator c = false)
    (h : ∀ p ∈ ps, p.IsProper) : ∀ p ∈ consPart c ps, p.IsProper := by
  have hone : (Part.segment [c]).IsProper := ⟨by simp, by simpa using hc⟩
  cases ps with
  | nil => simpa [consPart] using hone
  | cons q rest =>
    cases q with
    | separator d => exact List.forall_mem_cons.2 ⟨hone, h⟩
    | segment s =>
      obtain ⟨hq, hrest⟩ := List.forall_mem_cons.1 h
      exact List.forall_mem_cons.2 ⟨⟨by simp, List.forall_mem_cons.2 ⟨hc, hq.2⟩⟩, hrest⟩

theorem isProper_of_mem_parts (f : List Char) : ∀ p ∈ parts f, p.IsProper := by
  induction f with
  | nil => simp [parts]
  | cons c r ih =>
    rw [parts]
    split
    · next hc => exact List.forall_mem_cons.2 ⟨hc, ih⟩
    · next hc => exact isProper_consPart (by simpa using hc) ih

theorem isSeparator_of_mem_parts {f : List Char} {c : Char} (h : Part.separator c ∈ parts f) :
    isSeparator c = true :=
  isProper_of_mem_parts f _ h

end DateFormat

/-! ## The tokens of a compiled format -/

theorem Compiled.ofParts_tokens (f : String) :
    (Compiled.ofParts f).tokens = (DateFormat.parts f.toList).flatMap DateFormat.Part.tokens := by
  show ((DateFormat.parts f.toList).flatMap DateFormat.Part.pieces).filterMap _ = _
  rw [List.filterMap_flatMap]
  congr 1
  funext p
  exact p.filterMap_pieces

end NoteArchive
