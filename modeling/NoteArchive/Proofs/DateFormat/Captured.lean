import NoteArchive.Proofs.DateFormat.Language
import NoteArchive.Proofs.Path.Names

/-!
# What the tokens match in a name

Every token of a format has a text of its own in a name that matches, and no such text is empty.  So
the texts never run out while they are read, and each of them can be read; whether it makes sense
is another matter.  No token matches a separator.  So where each part is one token its texts are
what stands between the separators.

* `Misread.IsOfValues`: a misreading because of the values that a name writes.
* `isOfValues_of_readSlots`: there is no other one where each token has its text.
* `separator_mem_pieces_iff`, `mem_of_isMatch`: a name that matches has the separators of the
  format.
* `Text.words`: the pieces of a text between separators, without the empty ones.
* `Fits.words_eq`: where each part is at most one token, these are the texts of the tokens.
-/

namespace NoteArchive

open DateFormat

/-! ## Reading the texts -/

/-- A misreading because of the values that a name writes.  The name matches the format, there is a
text for each token, and every number can be read. -/
def Misread.IsOfValues : Misread → Bool
  | .badDay _ | .badMonthName _ | .badMonth _ | .badYear _ | .incomplete _ _ _
  | .noSuchDay _ _ _ => true
  | .mismatch _ _ | .missingText _ | .notNumber _ => false

section Reading

variable {t : Token} {a : List Char} {ts : List Token} {xs : List (List Char)}
  {known : PartialDate} {m : Misread} {c : Compiled} {stem : String}

/-- The texts of days, of years and of the numbers of months are made of digits. -/
theorem Token.isDigit_of_accepts (ht : t.slot ≠ .monthName) (ha : t.accepts a = true) :
    ∀ ch ∈ a, ch.isDigit = true := by
  have htext := isText_iff_accepts.2 ha
  cases t with
  | mmm => exact absurd rfl ht
  | mmmm => exact absurd rfl ht
  | _ => exact htext.2

/-- Such a text is a number, and what is made of the number follows. -/
theorem readNumber_bind_of_accepts (ht : t.slot ≠ .monthName) (ha : t.accepts a = true)
    {α : Type} (f : Nat → Except Misread α) :
    (readNumber a >>= f) = f (Text.digitsNumber a) := by
  have hdigits : a.all Text.isDigit = true := by
    rw [List.all_eq_true]
    intro ch hch
    rw [Text.isDigit, Text.digitValue?_of_isDigit (Token.isDigit_of_accepts ht ha ch hch)]
    rfl
  rw [readNumber, if_pos ⟨Token.ne_nil_of_accepts ha, hdigits⟩]
  rfl

theorem isOfValues_of_readYear {y : Int} (h : readYear y known = .error m) :
    m.IsOfValues = true := by
  unfold readYear at h
  split at h
  · cases h
    rfl
  · cases h

/-- A text that its token matches is misread only because of its value. -/
theorem isOfValues_of_readSlot (ha : t.accepts a = true)
    (h : readSlot known t.slot a = .error m) : m.IsOfValues = true := by
  by_cases ht : t.slot = .monthName
  · rw [ht, readSlot] at h
    split at h
    · cases h
      rfl
    · cases h
  · cases hslot : t.slot with
    | monthName => exact absurd hslot ht
    | unread =>
      rw [hslot] at h
      cases h
    | year =>
      rw [hslot, readSlot, readNumber_bind_of_accepts ht ha] at h
      exact isOfValues_of_readYear h
    | shortYear =>
      rw [hslot, readSlot, readNumber_bind_of_accepts ht ha] at h
      exact isOfValues_of_readYear h
    | _ =>
      rw [hslot, readSlot, readNumber_bind_of_accepts ht ha] at h
      split at h
      · cases h
        rfl
      · cases h

/-- Where each token has its text, the texts do not run out before the tokens. -/
theorem isOfValues_of_readSlots (hxs : List.Forall₂ (fun t a => t.accepts a = true) ts xs)
    {offset : Nat} (h : readSlots known offset (ts.map Token.slot) xs = .error m) :
    m.IsOfValues = true := by
  induction hxs generalizing known offset with
  | nil => cases h
  | @cons t a ts xs ha _ ih =>
    rw [List.map_cons, readSlots] at h
    rcases hk : readSlot known t.slot a with e | k
    · rw [hk] at h
      cases h
      exact isOfValues_of_readSlot ha hk
    · rw [hk] at h
      exact ih h

theorem isOfValues_of_complete (h : known.complete = .error m) : m.IsOfValues = true := by
  unfold PartialDate.complete at h
  split at h
  · dsimp only at h
    split at h
    · cases h
    · cases h
      rfl
  · cases h
    rfl

/-- A name that matches is misread only because of what it writes. -/
theorem Compiled.isOfValues_of_readDate {texts : List (List Char)}
    (htexts : c.captures (stem.toList ++ noteSuffix) = some texts)
    (h : c.readDate stem = .error m) : m.IsOfValues = true := by
  obtain ⟨r, -, hfits⟩ := fits_of_captures htexts
  rw [Compiled.readDate_eq_of_captures htexts] at h
  rcases hk : readSlots ⟨none, none, none⟩ 0 (c.tokens.map Token.slot) texts with e | known
  · rw [hk] at h
    cases h
    exact isOfValues_of_readSlots hfits.forall₂_accepts hk
  · rw [hk] at h
    exact isOfValues_of_complete h

end Reading

/-- A reading ends with a date or without one, but never for want of a text or because a text is no
number.  In a name that matches there are as many texts as the format has tokens, none of them is
empty, and all but those of names of months are made of digits. -/
theorem readDate_ends_well {f : String} {c : Compiled} (hc : compile? f = some c)
    (stem : String) :
    (∀ m, c.readDate stem = .error m →
      (∀ offset, m ≠ .missingText offset) ∧ ∀ text, m ≠ .notNumber text) ∧
    ∀ texts, c.captures (stem.toList ++ noteSuffix) = some texts →
      c.tokens = findTokens f.toList ∧ texts.length = c.tokens.length ∧ (∀ a ∈ texts, a ≠ []) ∧
      ∀ x ∈ c.tokens.zip texts, x.1.slot ≠ .monthName → ∀ ch ∈ x.2, ch.isDigit = true := by
  constructor
  · intro m hm
    rcases htexts : c.captures (stem.toList ++ noteSuffix) with _ | texts
    · rw [Compiled.readDate, Compiled.readDateBy, htexts] at hm
      cases hm
      constructor <;> rintro _ ⟨⟩
    · have hvalues := Compiled.isOfValues_of_readDate htexts hm
      refine ⟨?_, ?_⟩
      · rintro offset rfl
        cases hvalues
      · rintro text rfl
        cases hvalues
  · intro texts htexts
    obtain rfl := ofParts_of_compile? hc
    obtain ⟨r, -, hfits⟩ := fits_of_captures htexts
    have haccepts :
        List.Forall₂ (fun t a => t.accepts a = true) (Compiled.ofParts f).tokens texts :=
      hfits.forall₂_accepts
    refine ⟨Compiled.ofParts_tokens f, haccepts.length_eq.symm, fun a => hfits.ne_nil, ?_⟩
    exact fun x hx hslot => Token.isDigit_of_accepts hslot (List.forall₂_zip haccepts hx)

/-- A name with a day that does not exist, and parts that are left out. -/
theorem readDate_ends_well_of_no_day :
    let f := "DD-th-MMMM--YY"
    let stem := "31--february--20"
    let texts := ["31".toList, "february".toList, "20".toList]
    ∃ c m, compile? f = some c ∧ c.captures (stem.toList ++ noteSuffix) = some texts ∧
      c.readDate stem = .error m ∧ m.IsOfValues = true ∧ texts.length = c.tokens.length := by
  have hc : compile? "DD-th-MMMM--YY" = some (.ofParts "DD-th-MMMM--YY") := by decide +kernel
  have htexts : (Compiled.ofParts "DD-th-MMMM--YY").captures
      ("31--february--20".toList ++ noteSuffix) =
        some ["31".toList, "february".toList, "20".toList] := by decide +kernel
  have hm : (Compiled.ofParts "DD-th-MMMM--YY").readDate "31--february--20" =
      .error (.noSuchDay 2020 2 31) := by decide +kernel
  exact ⟨_, _, hc, htexts, hm, rfl, ((readDate_ends_well hc _).2 _ htexts).2.1⟩

/-! ## The separators of a name -/

/-- A text that a token matches has no separator. -/
theorem Token.not_mem_of_isSeparator {t : Token} {a : List Char} {c : Char}
    (hc : isSeparator c = true) (ha : t.accepts a = true) : c ∉ a := by
  intro hmem
  have hadmits : t.admits c = true := (accepts_iff.1 ha).1 c hmem
  have hletter := not_isAsciiLetter_of_isSeparator hc
  have hdigit : Text.isAsciiDigit c = false := by
    simp only [isSeparator, Bool.or_eq_true, decide_eq_true_eq] at hc
    rcases hc with rfl | rfl <;> decide
  cases t <;> simp_all [admits]

namespace DateFormat

theorem separator_mem_parts {f : List Char} {c : Char} (hc : isSeparator c = true) (h : c ∈ f) :
    Part.separator c ∈ parts f := by
  induction f with
  | nil => cases h
  | cons d r ih =>
    rw [parts]
    rcases List.mem_cons.1 h with rfl | hr
    · rw [if_pos hc]
      exact List.mem_cons_self
    · have ih := ih hr
      split
      · exact List.mem_cons_of_mem _ ih
      · -- a character that comes into a segment leaves the separators behind it
        cases hparts : parts r with
        | nil => simp [hparts] at ih
        | cons q rest => cases q <;> simp_all [consPart]

theorem separator_mem_pieces_iff {f : String} {c : Char} :
    Piece.separator c ∈ (Compiled.ofParts f).pieces ↔ c ∈ f.toList ∧ isSeparator c = true := by
  constructor
  · intro h
    refine ⟨?_, isSeparator_of_mem_pieces h⟩
    obtain ⟨p, hp, hc⟩ := List.mem_flatMap.1 h
    rw [← flatMap_parts f.toList, List.mem_flatMap]
    refine ⟨p, hp, ?_⟩
    cases p with
    | separator d =>
      cases List.mem_singleton.1 hc
      exact List.mem_singleton_self _
    | segment s =>
      obtain ⟨t, -, ht⟩ := List.mem_map.1 hc
      cases ht
  · rintro ⟨h, hc⟩
    exact List.mem_flatMap.2 ⟨_, separator_mem_parts hc h, List.mem_singleton_self _⟩

variable {ps : List Piece} {xs : List (List Char)} {s : List Char}

/-- The separators of a name are those among the pieces, since no token matches one. -/
theorem Fits.mem_iff_of_isSeparator (h : Fits ps xs s) {c : Char} (hc : isSeparator c = true) :
    c ∈ s ↔ Piece.separator c ∈ ps := by
  induction h with
  | nil => simp
  | separator d rest ih => simp [ih]
  | @token ps xs s a t ha rest ih =>
    simp [Token.not_mem_of_isSeparator hc ha, ih]

/-- A name that matches a format has its separators. -/
theorem mem_of_isMatch {f name : String} {c : Char} (hc : isSeparator c = true)
    (h : (Compiled.ofParts f).isMatch name = true) (hf : c ∈ f.toList) : c ∈ name.toList := by
  obtain ⟨xs, r, hr, hfits⟩ := Compiled.isMatch_iff.1 h
  rw [hr]
  apply List.mem_append_left
  exact (hfits.mem_iff_of_isSeparator hc).2 (separator_mem_pieces_iff.2 ⟨hf, hc⟩)

end DateFormat

/-! ## Words -/

namespace Text

/-- The pieces of a text between the occurrences of a character, without the empty ones. -/
def words (sep : Char) (s : List Char) : List (List Char) := (splitOn sep s).filter (· ≠ [])

variable {sep : Char} {a s : List Char}

theorem words_append_cons (sep : Char) (a s : List Char) :
    words sep (a ++ sep :: s) = words sep a ++ words sep s := by
  simp only [words, splitOn_eq_list_splitOn, List.splitOn_append_cons_self, List.filter_append]

theorem words_cons_self (sep : Char) (s : List Char) : words sep (sep :: s) = words sep s :=
  words_append_cons sep [] s

theorem words_of_not_mem (ha : sep ∉ a) (hne : a ≠ []) : words sep a = [a] := by
  rw [words, splitOn_eq_list_splitOn, List.splitOn_eq_singleton ha]
  simp [hne]

/-- A word in front of a separator, or of the end. -/
theorem words_append (ha : sep ∉ a) (hne : a ≠ []) (hs : s = [] ∨ s.head? = some sep) :
    words sep (a ++ s) = a :: words sep s := by
  rcases hs with rfl | hs
  · rw [List.append_nil, words_of_not_mem ha hne]
    rfl
  · obtain ⟨r, rfl⟩ := List.head?_eq_some_iff.1 hs
    rw [words_append_cons, words_of_not_mem ha hne, words_cons_self, List.singleton_append]

end Text

namespace DateFormat

variable {ps : List Part} {xs : List (List Char)} {s : List Char} {sep : Char}

/-- Behind a segment a name ends, or goes on with a separator. -/
theorem Fits.front_of_segment {u : List Char}
    (hchain : (Part.segment u :: ps).IsChain fun p q =>
      ¬ (p.isSegment = true ∧ q.isSegment = true))
    (hsep : ∀ c, Part.separator c ∈ ps → c = sep) (h : Fits (ps.flatMap Part.pieces) xs s) :
    s = [] ∨ s.head? = some sep := by
  cases ps with
  | nil =>
    cases h
    exact Or.inl rfl
  | cons q ps =>
    cases q with
    | separator c =>
      obtain rfl := hsep c List.mem_cons_self
      cases h
      exact Or.inr rfl
    | segment u' => exact absurd ⟨rfl, rfl⟩ (List.isChain_cons_cons.1 hchain).1

/-- Where each part is at most one token the texts of the tokens are the words of the name. -/
theorem Fits.words_eq (hsep : isSeparator sep = true)
    (hchain : ps.IsChain fun p q => ¬ (p.isSegment = true ∧ q.isSegment = true))
    (hall : ∀ c, Part.separator c ∈ ps → c = sep) (hone : ∀ p ∈ ps, p.tokens.length ≤ 1)
    (h : Fits (ps.flatMap Part.pieces) xs s) : Text.words sep s = xs := by
  induction ps generalizing xs s with
  | nil =>
    cases h
    rfl
  | cons p ps ih =>
    have hall' : ∀ c, Part.separator c ∈ ps → c = sep :=
      fun c hc => hall c (List.mem_cons_of_mem _ hc)
    have hwords : ∀ {ys r}, Fits (ps.flatMap Part.pieces) ys r → Text.words sep r = ys :=
      fun hr => ih hchain.tail hall' (fun q hq => hone q (List.mem_cons_of_mem _ hq)) hr
    rw [List.flatMap_cons] at h
    cases p with
    | separator c =>
      obtain rfl := hall c List.mem_cons_self
      cases h with
      | separator _ hr => rw [Text.words_cons_self, hwords hr]
    | segment u =>
      have hpieces : (Part.segment u).pieces = (Part.segment u).tokens.map .token := rfl
      rw [hpieces] at h
      rcases htokens : (Part.segment u).tokens with _ | ⟨t, _ | ⟨t', ts⟩⟩
      · rw [htokens] at h
        exact hwords h
      · rw [htokens] at h
        obtain ⟨a, ys, r, ha, rfl, rfl, hr⟩ := fits_token_iff.1 h
        have hfront := hr.front_of_segment hchain hall'
        rw [Text.words_append (Token.not_mem_of_isSeparator hsep ha) (Token.ne_nil_of_accepts ha)
          hfront, hwords hr]
      · have hle := hone _ List.mem_cons_self
        simp [htokens] at hle

/-- A format that can be compiled has one separator, if it has any. -/
theorem eq_of_separator_mem_parts {f : String} {c : Compiled} (hc : compile? f = some c)
    (hsep : c.separator = some sep) {c' : Char} (h : Part.separator c' ∈ parts f.toList) :
    c' = sep := by
  obtain rfl := ofParts_of_compile? hc
  have hfind : f.toList.reverse.find? isSeparator = some sep := hsep
  have hmem : sep ∈ f.toList := List.mem_reverse.1 (List.mem_of_find?_eq_some hfind)
  have hmem' : c' ∈ f.toList := by
    rw [← flatMap_parts f.toList]
    exact List.mem_flatMap.2 ⟨_, h, List.mem_singleton_self _⟩
  have hmixed : ¬ ('-' ∈ f.toList ∧ '/' ∈ f.toList) := by
    simpa [compile?, hasMixedSeparators] using hc
  have hor : sep = '-' ∨ sep = '/' := by
    simpa [isSeparator] using List.find?_some hfind
  have hor' : c' = '-' ∨ c' = '/' := by
    simpa [isSeparator] using isSeparator_of_mem_parts h
  rcases hor with rfl | rfl <;> rcases hor' with rfl | rfl
  · rfl
  · exact absurd ⟨hmem, hmem'⟩ hmixed
  · exact absurd ⟨hmem', hmem⟩ hmixed
  · rfl

end DateFormat

/-- Where every recognised part of a format is one token, the tokens match the pieces of the stem
between the separators, in order and without the empty ones. -/
theorem captures_eq_pieces {f : String} {c : Compiled} {sep : Char} {stem : String}
    (hc : compile? f = some c) (hsep : c.separator = some sep)
    (hone : ∀ p ∈ parts f.toList, ∀ ts ∈ p.tokens?, ts.length = 1)
    (h : c.isMatch (stem ++ ".md") = true) :
    c.captures (stem ++ ".md").toList =
      some ((Text.splitOn sep stem.toList).filter (· ≠ [])) := by
  obtain ⟨texts, htexts⟩ := Option.isSome_iff_exists.1 h
  have hparts : ∀ c', Part.separator c' ∈ parts f.toList → c' = sep :=
    fun c' hc' => eq_of_separator_mem_parts hc hsep hc'
  have hlength : ∀ p ∈ parts f.toList, p.tokens.length ≤ 1 := by
    intro p hp
    rcases htokens : p.tokens? with _ | ts
    · simp [Part.tokens, htokens]
    · simpa [Part.tokens, htokens] using (hone p hp ts htokens).le
  obtain rfl := ofParts_of_compile? hc
  have hsep' : isSeparator sep = true :=
    List.find?_some (show f.toList.reverse.find? isSeparator = some sep from hsep)
  obtain ⟨r, hr, hfits⟩ := fits_of_captures htexts
  rw [String.toList_append] at hr
  obtain rfl : stem.toList = r := List.append_cancel_right hr
  rw [htexts, ← hfits.words_eq hsep' (isChain_parts f.toList) hparts hlength]
  rfl

/-- Separators at both ends, two in a row, and parts that are left out. -/
theorem captures_eq_pieces_of_dropped_parts :
    let f := "--DD-x--MMM-of-YYYY-"
    let stem := "--05---Feb--2020-"
    ∃ c, compile? f = some c ∧ c.separator = some '-' ∧
      (∀ p ∈ parts f.toList, ∀ ts ∈ p.tokens?, ts.length = 1) ∧
      c.isMatch (stem ++ ".md") = true ∧
      c.captures (stem ++ ".md").toList =
        some ((Text.splitOn '-' stem.toList).filter (· ≠ [])) := by
  have hc : compile? "--DD-x--MMM-of-YYYY-" = some (.ofParts "--DD-x--MMM-of-YYYY-") := by
    decide +kernel
  have hsep : (Compiled.ofParts "--DD-x--MMM-of-YYYY-").separator = some '-' := by decide +kernel
  have hone : ∀ p ∈ parts "--DD-x--MMM-of-YYYY-".toList, ∀ ts ∈ p.tokens?, ts.length = 1 := by
    decide +kernel
  have hmatch : (Compiled.ofParts "--DD-x--MMM-of-YYYY-").isMatch
      ("--05---Feb--2020-" ++ ".md") = true := by decide +kernel
  exact ⟨_, hc, hsep, hone, hmatch, captures_eq_pieces hc hsep hone hmatch⟩

end NoteArchive
