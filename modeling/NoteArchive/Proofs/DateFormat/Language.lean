import NoteArchive.Proofs.DateFormat.Faithful

/-!
# The names that a format matches

A name matches a format when it is cut into texts of its tokens, one part after the other.  Where
several full names of months stand side by side there can be many such cuts, and the search decides
for one of them.

* `Token.IsText`: the texts that a token stands for.
* `DateFormat.Names`: a name made of such texts and of the separators of a format.
* `DateFormat.Greedy`: among all cuts of a name the one in which each full name of a month is as
  long as the texts before it allow.
* `Fits.isSome_captures`: every cut of a name is reason enough for the search to end well.
* `greedy_of_captures`, `Greedy.unique`: the search ends with the greedy cut, and there is no other
  one.
-/

namespace NoteArchive

open DateFormat

/-! ## The texts of a token -/

/-- The texts that a token stands for: two or four digits, three letters, or at least four. -/
def Token.IsText (a : List Char) : Token → Prop
  | .dd | .mm | .yy => a.length = 2 ∧ ∀ c ∈ a, c.isDigit = true
  | .yyyy => a.length = 4 ∧ ∀ c ∈ a, c.isDigit = true
  | .mmm => a.length = 3 ∧ ∀ c ∈ a, c.isAlpha = true
  | .mmmm => 4 ≤ a.length ∧ ∀ c ∈ a, c.isAlpha = true

theorem Text.isAsciiLetter_eq_isAlpha (c : Char) : isAsciiLetter c = c.isAlpha := by
  have hupper : c.isUpper = true ↔ 65 ≤ c.toNat ∧ c.toNat ≤ 90 := decide_eq_true_iff
  have hlower : c.isLower = (decide (97 ≤ c.toNat) && decide (c.toNat ≤ 122)) := rfl
  have halpha : c.isAlpha = (c.isUpper || c.isLower) := rfl
  rw [Bool.eq_iff_iff, halpha, Bool.or_eq_true, hupper, hlower]
  simp [isAsciiLetter]

theorem Token.isText_iff_accepts {t : Token} {a : List Char} :
    t.IsText a ↔ t.accepts a = true := by
  rw [accepts_iff, and_comm]
  cases t <;>
    simp [IsText, admits, isOpen, width, Text.isAsciiDigit_eq_isDigit,
      Text.isAsciiLetter_eq_isAlpha]

namespace DateFormat

/-! ## The names of a format -/

/-- A name is made of the separators of a format, of texts for the tokens of its parts, and of the
suffix.  Unrecognised parts have no text. -/
inductive Names : List Part → List (List Char) → List Char → Prop where
  | suffix : Names [] [] ['.', 'm', 'd']
  | separator {ps : List Part} {xs : List (List Char)} {s : List Char} (c : Char)
      (rest : Names ps xs s) : Names (.separator c :: ps) xs (c :: s)
  | unrecognised {ps : List Part} {xs : List (List Char)} {s : List Char} {u : List Char}
      (hu : tokenize u = none) (rest : Names ps xs s) : Names (.segment u :: ps) xs s
  | tokens {ps : List Part} {as xs : List (List Char)} {s : List Char} {u : List Char}
      {ts : List Token} (hu : tokenize u = some ts)
      (has : List.Forall₂ (fun t a => t.IsText a) ts as) (rest : Names ps xs s) :
      Names (.segment u :: ps) (as ++ xs) (as.flatten ++ s)

/-- Texts for tokens in a cut of a kind, where each full name of a month is as long as the texts
before it allow. -/
structure Greedy (ts : List Token) (Cut : List (List Char) → Prop) (xs : List (List Char)) :
    Prop where
  cut : Cut xs
  longest : ∀ ys i, Cut ys → ts[i]? = some .mmmm → ys.take i = xs.take i →
    (ys.getD i []).length ≤ (xs.getD i []).length

section Pieces

variable {ps : List Piece} {xs : List (List Char)} {s : List Char}

theorem fits_token_iff {t : Token} :
    Fits (.token t :: ps) xs s ↔
      ∃ a ys r, t.accepts a = true ∧ xs = a :: ys ∧ s = a ++ r ∧ Fits ps ys r := by
  constructor
  · intro h
    cases h with
    | token ha rest => exact ⟨_, _, _, ha, rfl, rfl, rest⟩
  · rintro ⟨a, ys, r, ha, rfl, rfl, rest⟩
    exact .token ha rest

/-- Texts for a row of tokens come first, and what they leave belongs to the other pieces. -/
theorem fits_tokens_append_iff {ts : List Token} :
    Fits (ts.map .token ++ ps) xs s ↔
      ∃ as ys r, List.Forall₂ (fun t a => t.IsText a) ts as ∧ xs = as ++ ys ∧
        s = as.flatten ++ r ∧ Fits ps ys r := by
  induction ts generalizing xs s with
  | nil =>
    constructor
    · exact fun h => ⟨[], xs, s, .nil, rfl, rfl, h⟩
    · rintro ⟨as, ys, r, has, rfl, rfl, h⟩
      cases has
      exact h
  | cons t ts ih =>
    constructor
    · intro h
      cases h with
      | token ha rest =>
        obtain ⟨as, ys, r, has, rfl, rfl, h⟩ := ih.1 rest
        exact ⟨_ :: as, ys, r, .cons (Token.isText_iff_accepts.2 ha) has, rfl, by simp, h⟩
    · rintro ⟨as, ys, r, has, rfl, rfl, h⟩
      cases has with
      | cons ha has =>
        rw [List.flatten_cons, List.append_assoc]
        exact .token (Token.isText_iff_accepts.1 ha) (ih.2 ⟨_, ys, r, has, rfl, rfl, h⟩)

/-- The names of a format are those that its pieces and the suffix make up. -/
theorem names_iff_fits {ps : List Part} :
    Names ps xs s ↔ ∃ r, s = r ++ noteSuffix ∧ Fits (ps.flatMap Part.pieces) xs r := by
  constructor
  · intro h
    induction h with
    | suffix => exact ⟨[], rfl, .nil⟩
    | separator c rest ih =>
      obtain ⟨r, rfl, hr⟩ := ih
      exact ⟨c :: r, rfl, .separator c hr⟩
    | unrecognised hu rest ih =>
      obtain ⟨r, rfl, hr⟩ := ih
      refine ⟨r, rfl, ?_⟩
      rw [List.flatMap_cons, Part.pieces, hu]
      exact hr
    | tokens hu has rest ih =>
      obtain ⟨r, rfl, hr⟩ := ih
      refine ⟨_, (List.append_assoc _ _ _).symm, ?_⟩
      rw [List.flatMap_cons, Part.pieces, hu]
      exact fits_tokens_append_iff.2 ⟨_, _, r, has, rfl, rfl, hr⟩
  · rintro ⟨r, rfl, h⟩
    induction ps generalizing xs r with
    | nil =>
      cases h
      exact .suffix
    | cons p ps ih =>
      rw [List.flatMap_cons] at h
      cases p with
      | separator c =>
        cases h with
        | separator _ rest => exact .separator c (ih _ rest)
      | segment u =>
        rw [Part.pieces] at h
        cases hu : tokenize u with
        | none =>
          rw [hu] at h
          exact .unrecognised hu (ih _ h)
        | some ts =>
          rw [hu] at h
          obtain ⟨as, ys, r, has, rfl, rfl, hr⟩ := fits_tokens_append_iff.1 h
          rw [List.append_assoc]
          exact .tokens hu has (ih _ hr)

theorem names_append_iff {ps : List Part} :
    Names ps xs (s ++ noteSuffix) ↔ Fits (ps.flatMap Part.pieces) xs s := by
  rw [names_iff_fits]
  constructor
  · rintro ⟨r, hr, hfits⟩
    rwa [List.append_cancel_right hr]
  · exact fun hfits => ⟨s, rfl, hfits⟩

/-! ## What the search finds -/

/-- The length of a text that a token matches is one that is tried. -/
theorem length_mem_lengths {t : Token} {a : List Char} (ha : t.accepts a = true) (r : List Char) :
    a.length ∈ t.lengths (a ++ r) := by
  cases hopen : t.isOpen with
  | false =>
    have hlength : a.length = t.width := by simpa [hopen] using (Token.accepts_iff.1 ha).2
    rw [Token.lengths_of_accepts hopen ha, hlength]
    exact List.mem_singleton_self _
  | true =>
    rw [Token.lengths_of_isOpen hopen ha]
    exact List.mem_append_right _ List.mem_cons_self

/-- Longer texts are tried first. -/
theorem pairwise_lengths (t : Token) (r : List Char) : (t.lengths r).Pairwise (· > ·) := by
  unfold Token.lengths
  dsimp only
  split
  · exact .nil
  · split
    · rw [List.pairwise_reverse]
      exact List.pairwise_lt_range'
    · exact List.pairwise_singleton _ _

/-- A token takes the first length after which the rest matches. -/
theorem captures_token_cons {t : Token} (h : captures (.token t :: ps) s = some xs) :
    ∃ n ys, n ∈ t.lengths s ∧ xs = s.take n :: ys ∧ captures ps (s.drop n) = some ys ∧
      ∀ m ∈ t.lengths s, (captures ps (s.drop m)).isSome → m ≤ n := by
  rw [captures] at h
  obtain ⟨before, n, after, hlengths, hn, hbefore⟩ := List.findSome?_eq_some_iff.1 h
  obtain ⟨ys, hys, rfl⟩ := Option.map_eq_some_iff.1 hn
  refine ⟨n, ys, by simp [hlengths], rfl, hys, ?_⟩
  intro m hm hsome
  have hsorted := pairwise_lengths t s
  rw [hlengths] at hm hsorted
  rcases List.mem_append.1 hm with hm | hm
  · -- what was tried before did not match
    have hnone := hbefore m hm
    rw [Option.map_eq_none_iff] at hnone
    simp [hnone] at hsome
  · rcases List.mem_cons.1 hm with rfl | hm
    · exact Nat.le_refl _
    · exact Nat.le_of_lt (List.rel_of_pairwise_cons (List.pairwise_append.1 hsorted).2.1 hm)

/-- Every cut of a name is reason enough for the search to end well. -/
theorem Fits.isSome_captures (h : Fits ps xs s) : (captures ps (s ++ noteSuffix)).isSome := by
  induction h with
  | nil => rfl
  | separator c rest ih => simpa [captures] using ih
  | @token ps xs s a t ha rest ih =>
    rw [captures, List.findSome?_isSome_iff, List.append_assoc]
    refine ⟨a.length, length_mem_lengths ha _, ?_⟩
    rw [List.drop_left]
    simpa using ih

/-- The search ends with texts of which each is as long as the texts before it allow. -/
theorem length_le_of_captures (h : captures ps (s ++ noteSuffix) = some xs)
    {ys : List (List Char)} (hys : Fits ps ys s) {i : Nat} (hi : ys.take i = xs.take i) :
    (ys.getD i []).length ≤ (xs.getD i []).length := by
  induction hys generalizing xs i with
  | nil => simp
  | separator c rest ih =>
    apply ih _ hi
    simpa [captures] using h
  | @token ps ys s b t hb rest ih =>
    rw [List.append_assoc] at h
    obtain ⟨n, xs, hn, rfl, hxs, hlongest⟩ := captures_token_cons h
    have hle : n ≤ (b ++ (s ++ noteSuffix)).length :=
      (Token.le_of_mem_lengths hn).1.trans (List.takeWhile_prefix _).length_le
    cases i with
    | zero =>
      have hb : b.length ≤ n := by
        apply hlongest _ (length_mem_lengths hb _)
        rw [List.drop_left]
        exact rest.isSome_captures
      show b.length ≤ ((b ++ (s ++ noteSuffix)).take n).length
      rw [List.length_take]
      omega
    | succ i =>
      -- the same text was taken, so the same rest is left
      obtain ⟨hfirst, hi⟩ := List.cons.inj hi
      have hn : n = b.length := by
        rw [hfirst, List.length_take]
        omega
      rw [hn, List.drop_left] at hxs
      exact ih hxs hi

/-- After the first text the others are the greedy ones among those that can follow it. -/
theorem Greedy.tail {ts : List Token} {Cut : List (List Char) → Prop} {t : Token} {a : List Char}
    (h : Greedy (t :: ts) Cut (a :: xs)) : Greedy ts (fun zs => Cut (a :: zs)) xs where
  cut := h.cut
  longest ys i hys ht hi :=
    h.longest (a :: ys) (i + 1) hys (by simpa using ht) (by simp [List.take_succ_cons, hi])

/-- Two cuts of a name are the same if in each of them every full name of a month is as long as the
texts before it allow. -/
theorem Greedy.unique (h : Greedy (ps.filterMap Piece.token?) (fun zs => Fits ps zs s) xs)
    {ys : List (List Char)}
    (h' : Greedy (ps.filterMap Piece.token?) (fun zs => Fits ps zs s) ys) : xs = ys := by
  have hfits := h.cut
  induction hfits generalizing ys with
  | nil =>
    cases h'.cut
    rfl
  | @separator ps xs s c rest ih =>
    have hcons : ∀ zs, Fits (.separator c :: ps) zs (c :: s) ↔ Fits ps zs s := by
      intro zs
      constructor
      · intro hzs
        cases hzs
        assumption
      · exact .separator c
    simp only [hcons] at h h'
    exact ih h h'
  | @token ps xs s a t ha rest ih =>
    obtain ⟨b, ys, r, hb, rfl, hs, -⟩ := fits_token_iff.1 h'.cut
    have hlength : a.length = b.length := by
      cases hopen : t.isOpen with
      | false =>
        have hwidth := (Token.accepts_iff.1 ha).2
        have hwidth' := (Token.accepts_iff.1 hb).2
        rw [hopen] at hwidth hwidth'
        exact hwidth.trans hwidth'.symm
      | true =>
        -- neither of the two full names is longer than the other one
        obtain rfl : t = .mmmm := by cases t <;> first | rfl | cases hopen
        have hle : b.length ≤ a.length := h.longest (b :: ys) 0 h'.cut rfl rfl
        have hle' : a.length ≤ b.length := h'.longest (a :: xs) 0 h.cut rfl rfl
        omega
    obtain ⟨rfl, rfl⟩ := List.append_inj hs hlength
    have hcons : ∀ zs, Fits (.token t :: ps) (a :: zs) (a ++ s) ↔ Fits ps zs s := by
      intro zs
      constructor
      · intro hzs
        obtain ⟨_, _, r, -, hcut, hr, hrest⟩ := fits_token_iff.1 hzs
        cases hcut
        rwa [List.append_cancel_left hr]
      · exact .token ha
    have htail := h.tail
    have htail' := h'.tail
    simp only [hcons] at htail htail'
    rw [ih htail htail']

/-- The search ends with the greedy cut of a name. -/
theorem greedy_of_captures (h : captures ps (s ++ noteSuffix) = some xs) :
    Greedy (ps.filterMap Piece.token?) (fun zs => Fits ps zs s) xs where
  cut := by
    obtain ⟨r, hr, hfits⟩ := fits_of_captures h
    rwa [List.append_cancel_right hr]
  longest _ _ hys _ hi := length_le_of_captures h hys hi

/-- The search ends with some texts exactly when they are the greedy cut of the name. -/
theorem captures_eq_some_iff : captures ps (s ++ noteSuffix) = some xs ↔
    Greedy (ps.filterMap Piece.token?) (fun zs => Fits ps zs s) xs := by
  refine ⟨greedy_of_captures, fun h => ?_⟩
  obtain ⟨ys, hys⟩ := Option.isSome_iff_exists.1 h.cut.isSome_captures
  rw [hys, h.unique (greedy_of_captures hys)]

end Pieces

end DateFormat

/-! ## The names that match -/

/-- A name matches a format exactly when it can be cut, up to the suffix, along the pieces. -/
theorem Compiled.isMatch_iff {c : Compiled} {name : String} :
    c.isMatch name = true ↔ ∃ xs r, name.toList = r ++ noteSuffix ∧ Fits c.pieces xs r := by
  constructor
  · intro h
    obtain ⟨xs, hxs⟩ := Option.isSome_iff_exists.1 h
    exact ⟨xs, fits_of_captures hxs⟩
  · rintro ⟨xs, r, hr, hfits⟩
    show (captures _ name.toList).isSome = true
    rw [hr]
    exact hfits.isSome_captures

/-- A name matches a format exactly when it is made of the separators of the format, of a text for
each of its tokens, and of the suffix.  The texts that the tokens match in it are the cut in which
every full name of a month, from left to right, is as long as the texts before it allow. -/
theorem match_iff_names {f : String} (hf : hasMixedSeparators f.toList = false) :
    ∃ c, compile? f = some c ∧ ∀ name : String,
      (c.isMatch name = true ↔ ∃ xs, Names (parts f.toList) xs name.toList) ∧
        ∀ xs, c.captures name.toList = some xs ↔
          Greedy c.tokens (fun ys => Names (parts f.toList) ys name.toList) xs := by
  refine ⟨.ofParts f, by simp [compile?, hf], fun name => ?_⟩
  have hmatch : (Compiled.ofParts f).isMatch name = true ↔
      ∃ xs, Names (parts f.toList) xs name.toList := by
    simp only [names_iff_fits]
    exact Compiled.isMatch_iff
  refine ⟨hmatch, fun xs => ⟨fun h => ?_, fun h => ?_⟩⟩
  · obtain ⟨r, hr, -⟩ := fits_of_captures h
    rw [hr] at h ⊢
    simp only [names_append_iff]
    exact greedy_of_captures h
  · obtain ⟨r, hr, -⟩ := names_iff_fits.1 h.cut
    rw [hr] at h ⊢
    simp only [names_append_iff] at h
    exact captures_eq_some_iff.2 h

/-- The letters of two full names of months side by side, where the first one takes what it can. -/
theorem match_iff_names_of_two_months :
    let f := "MMMMMMMM-notes-DD"
    let name := "FebruaryMarch--05.md"
    ∃ c, compile? f = some c ∧ c.isMatch name = true ∧
      (∃ xs, Names (parts f.toList) xs name.toList) ∧
      Greedy c.tokens (fun ys => Names (parts f.toList) ys name.toList)
        ["FebruaryM".toList, "arch".toList, "05".toList] := by
  obtain ⟨c, hc, h⟩ := match_iff_names (f := "MMMMMMMM-notes-DD") (by decide)
  obtain ⟨hmatch, hcaptures⟩ := h "FebruaryMarch--05.md"
  obtain rfl := ofParts_of_compile? hc
  have htexts : (Compiled.ofParts "MMMMMMMM-notes-DD").captures "FebruaryMarch--05.md".toList =
      some ["FebruaryM".toList, "arch".toList, "05".toList] := by decide +kernel
  have hsome := Option.isSome_of_eq_some htexts
  exact ⟨_, hc, hsome, hmatch.1 hsome, (hcaptures _).1 htexts⟩

end NoteArchive
