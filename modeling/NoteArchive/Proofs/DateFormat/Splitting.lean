import NoteArchive.Proofs.DateFormat.Checking

/-!
# The one way to split a format

The parts of a format are separators and segments, and no two segments stand side by side.  No other
row of such texts makes up the format.  So a format that was joined from segments is split into
these segments and the separators between them.

* `parts_flatMap_letters`: a row of proper parts without segments side by side is split into itself.
* `parts_intercalate`: the parts of segments that were joined by a separator.  An empty segment
  leaves nothing between the separators around it.
* `partTexts`, `Alternates`: the texts of the parts, and rows of texts as they can be.
* `partTexts_eq_iff`: the texts of the parts are the only such row.
* `split_is_only_alternation`: all of it together, with the tokens of a format that was joined.
-/

namespace NoteArchive.DateFormat

/-! ## Splitting in front of a rest -/

section Front

variable {a r : List Char} {c : Char}

theorem parts_cons_of_separator (hc : isSeparator c = true) :
    parts (c :: r) = .separator c :: parts r := by
  rw [parts, if_pos hc]

/-- A segment is a part of its own in front of a separator or of the end. -/
theorem parts_append_of_front (hne : a ≠ []) (ha : ∀ d ∈ a, isSeparator d = false)
    (hr : ∀ d ∈ r.head?, isSeparator d = true) : parts (a ++ r) = .segment a :: parts r := by
  induction a with
  | nil => exact absurd rfl hne
  | cons c a ih =>
    obtain ⟨hc, ha⟩ := List.forall_mem_cons.1 ha
    rw [List.cons_append, parts, if_neg (by simp [hc])]
    by_cases hnil : a = []
    · -- what follows the last character is no segment that it could come into
      subst hnil
      cases r with
      | nil => rfl
      | cons d r =>
        rw [List.nil_append, parts_cons_of_separator (hr d rfl)]
        rfl
    · rw [ih hnil ha]
      rfl

/-- The parts of a text without separators: the text itself, unless it is empty. -/
def segmentParts (s : List Char) : List Part := if s = [] then [] else [.segment s]

theorem parts_append_separator (ha : ∀ d ∈ a, isSeparator d = false) (hc : isSeparator c = true) :
    parts (a ++ c :: r) = segmentParts a ++ .separator c :: parts r := by
  by_cases hnil : a = []
  · subst hnil
    exact parts_cons_of_separator hc
  · rw [parts_append_of_front hnil ha (by simpa using hc), parts_cons_of_separator hc,
      segmentParts, if_neg hnil, List.singleton_append]

theorem parts_of_no_separator (ha : ∀ d ∈ a, isSeparator d = false) :
    parts a = segmentParts a := by
  by_cases hnil : a = []
  · subst hnil
    rfl
  · have hparts : parts (a ++ []) = .segment a :: parts [] :=
      parts_append_of_front hnil ha (by simp)
    rw [List.append_nil] at hparts
    rw [hparts, segmentParts, if_neg hnil]
    rfl

end Front

/-! ## Rows of parts -/

/-- A row of parts without segments side by side is the row of the parts of its letters. -/
theorem parts_flatMap_letters {ps : List Part} (hproper : ∀ p ∈ ps, p.IsProper)
    (hchain : ps.IsChain fun p q => ¬ (p.isSegment = true ∧ q.isSegment = true)) :
    parts (ps.flatMap Part.letters) = ps := by
  induction ps with
  | nil => rfl
  | cons p ps ih =>
    obtain ⟨hp, hps⟩ := List.forall_mem_cons.1 hproper
    have hrest := ih hps hchain.tail
    rw [List.flatMap_cons]
    cases p with
    | separator c =>
      change parts (c :: ps.flatMap Part.letters) = _
      rw [parts_cons_of_separator hp, hrest]
    | segment s =>
      change parts (s ++ ps.flatMap Part.letters) = _
      have hfront : ∀ d ∈ (ps.flatMap Part.letters).head?, isSeparator d = true := by
        cases ps with
        | nil => simp
        | cons q ps =>
          cases q with
          | separator d =>
            have hd : isSeparator d = true := hps _ List.mem_cons_self
            simpa [Part.letters] using hd
          | segment s' => exact absurd ⟨rfl, rfl⟩ (List.isChain_cons_cons.1 hchain).1
      rw [parts_append_of_front hp.1 hp.2 hfront, hrest]

/-! ## Segments that were joined -/

section Joined

variable {sep : Char} {segments : List (List Char)}

/-- The parts of segments that were joined by a separator. -/
theorem parts_intercalate (hsep : isSeparator sep = true)
    (h : ∀ s ∈ segments, ∀ c ∈ s, isSeparator c = false) :
    parts ([sep].intercalate segments) =
      [Part.separator sep].intercalate (segments.map segmentParts) := by
  induction segments with
  | nil => rfl
  | cons s rest ih =>
    obtain ⟨hs, hrest⟩ := List.forall_mem_cons.1 h
    by_cases hnil : rest = []
    · subst hnil
      simpa using parts_of_no_separator hs
    · have hnil' : rest.map segmentParts ≠ [] := by simpa using hnil
      rw [List.map_cons, List.intercalate_cons_of_ne_nil hnil,
        List.intercalate_cons_of_ne_nil hnil', ← ih hrest, List.append_assoc, List.append_assoc]
      exact parts_append_separator hs hsep

/-- Segments that were joined by a separator have no other one. -/
theorem eq_of_mem_intercalate {c : Char} (h : ∀ s ∈ segments, ∀ d ∈ s, isSeparator d = false)
    (hc : isSeparator c = true) (hmem : c ∈ [sep].intercalate segments) : c = sep := by
  induction segments with
  | nil => simp at hmem
  | cons s rest ih =>
    obtain ⟨hs, hrest⟩ := List.forall_mem_cons.1 h
    have hnot : c ∉ s := fun hcs => by simp [hs c hcs] at hc
    by_cases hnil : rest = []
    · subst hnil
      exact absurd (by simpa using hmem) hnot
    · rw [List.intercalate_cons_of_ne_nil hnil, List.append_assoc, List.mem_append] at hmem
      rcases List.mem_cons.1 (hmem.resolve_left hnot) with rfl | hmem
      · rfl
      · exact ih hrest hmem

theorem hasMixedSeparators_intercalate (h : ∀ s ∈ segments, ∀ c ∈ s, isSeparator c = false) :
    hasMixedSeparators ([sep].intercalate segments) = false := by
  rw [hasMixedSeparators, Bool.and_eq_false_iff]
  by_contra hboth
  simp only [List.contains_iff_mem, not_or, Bool.not_eq_false] at hboth
  have hhyphen : '-' = sep := eq_of_mem_intercalate h rfl hboth.1
  have hslash : '/' = sep := eq_of_mem_intercalate h rfl hboth.2
  rw [← hslash] at hhyphen
  cases hhyphen

theorem flatMap_intercalate {α β : Type} {x : α} {g : α → List β} (hx : g x = [])
    (rows : List (List α)) :
    ([x].intercalate rows).flatMap g = rows.flatMap fun row => row.flatMap g := by
  induction rows with
  | nil => rfl
  | cons row rest ih =>
    by_cases hnil : rest = []
    · simp [hnil]
    · rw [List.intercalate_cons_of_ne_nil hnil, List.flatMap_append, List.flatMap_append, ih]
      simp [hx]

theorem flatMap_tokens_segmentParts (s : List Char) :
    (segmentParts s).flatMap Part.tokens = (tokenize s).getD [] := by
  unfold segmentParts
  split
  · next hs =>
    subst hs
    rfl
  · simp [Part.tokens, Part.tokens?]

end Joined

/-! ## The texts of the parts -/

/-- A separator as a text. -/
def IsSeparatorText (p : String) : Prop := p = "-" ∨ p = "/"

instance (p : String) : Decidable (IsSeparatorText p) := inferInstanceAs (Decidable (_ ∨ _))

/-- A text without separators. -/
def IsPlain (s : String) : Prop := '-' ∉ s.toList ∧ '/' ∉ s.toList

instance (s : String) : Decidable (IsPlain s) := inferInstanceAs (Decidable (_ ∧ _))

/-- A text without separators that is not empty. -/
def IsSegmentText (p : String) : Prop := p ≠ "" ∧ IsPlain p

instance (p : String) : Decidable (IsSegmentText p) := inferInstanceAs (Decidable (_ ∧ _))

/-- A row of separators and segments in which no two segments stand side by side. -/
structure Alternates (ps : List String) : Prop where
  each : ∀ p ∈ ps, IsSeparatorText p ∨ IsSegmentText p
  chain : ps.IsChain fun p q => ¬ (IsSegmentText p ∧ IsSegmentText q)

instance (ps : List String) : Decidable (Alternates ps) :=
  decidable_of_iff ((∀ p ∈ ps, IsSeparatorText p ∨ IsSegmentText p) ∧
    ps.IsChain fun p q => ¬ (IsSegmentText p ∧ IsSegmentText q))
    ⟨fun h => ⟨h.1, h.2⟩, fun h => ⟨h.1, h.2⟩⟩

/-- The texts of the parts of a format, in order. -/
def partTexts (f : String) : List String := (parts f.toList).map Part.text

theorem isPlain_iff {s : String} : IsPlain s ↔ ∀ c ∈ s.toList, isSeparator c = false := by
  simp only [IsPlain, isSeparator, Bool.or_eq_false_iff, decide_eq_false_iff_not]
  constructor
  · rintro ⟨hhyphen, hslash⟩ c hc
    exact ⟨ne_of_mem_of_not_mem hc hhyphen, ne_of_mem_of_not_mem hc hslash⟩
  · intro h
    exact ⟨fun hc => (h _ hc).1 rfl, fun hc => (h _ hc).2 rfl⟩

/-- The part that a text is. -/
def Part.ofText (p : String) : Part :=
  if p = "-" then .separator '-' else if p = "/" then .separator '/' else .segment p.toList

theorem Part.text_ofText (p : String) : (ofText p).text = p := by
  unfold ofText
  split
  · next h => exact h.symm
  · split
    · next h => exact h.symm
    · exact String.ofList_toList

theorem Part.isProper_ofText {p : String} (h : IsSeparatorText p ∨ IsSegmentText p) :
    (ofText p).IsProper := by
  unfold ofText
  split
  · rfl
  · next hhyphen =>
    split
    · rfl
    · next hslash =>
      -- a text that is no separator is a segment
      obtain ⟨hne, hplain⟩ := h.resolve_left fun hsep => hsep.elim hhyphen hslash
      exact ⟨fun hnil => hne (String.toList_eq_nil_iff.1 hnil), isPlain_iff.1 hplain⟩

theorem Part.isSegmentText_text_iff {p : Part} (h : p.IsProper) :
    IsSegmentText p.text ↔ p.isSegment = true := by
  cases p with
  | separator c =>
    refine iff_of_false (fun htext => ?_) Bool.false_ne_true
    have hplain := isPlain_iff.1 htext.2 c (by simp [text, letters])
    rw [show isSeparator c = true from h] at hplain
    cases hplain
  | segment s =>
    refine iff_of_true ⟨fun hempty => h.1 ?_, isPlain_iff.2 ?_⟩ rfl
    · simpa [text, letters] using congrArg String.toList hempty
    · simpa [text, letters] using h.2

theorem Part.isText_of_isProper {p : Part} (h : p.IsProper) :
    IsSeparatorText p.text ∨ IsSegmentText p.text := by
  cases p with
  | separator c =>
    have hc : c = '-' ∨ c = '/' := by simpa [isSeparator] using (show isSeparator c = true from h)
    rcases hc with rfl | rfl
    · exact Or.inl (Or.inl rfl)
    · exact Or.inl (Or.inr rfl)
  | segment s => exact Or.inr ((isSegmentText_text_iff h).2 rfl)

/-- The texts of proper parts alternate where no segments stand side by side. -/
theorem alternates_map_text_iff {ps : List Part} (h : ∀ p ∈ ps, p.IsProper) :
    Alternates (ps.map Part.text) ↔
      ps.IsChain fun p q => ¬ (p.isSegment = true ∧ q.isSegment = true) := by
  have hchain : (ps.map Part.text).IsChain (fun p q => ¬ (IsSegmentText p ∧ IsSegmentText q)) ↔
      ps.IsChain fun p q => ¬ (p.isSegment = true ∧ q.isSegment = true) := by
    rw [List.isChain_map]
    refine List.IsChain.iff_of_mem_imp fun p q hp hq => ?_
    rw [Part.isSegmentText_text_iff (h p hp), Part.isSegmentText_text_iff (h q hq)]
  constructor
  · intro halt
    exact hchain.1 halt.chain
  · intro hparts
    refine ⟨fun text htext => ?_, hchain.2 hparts⟩
    obtain ⟨p, hp, rfl⟩ := List.mem_map.1 htext
    exact Part.isText_of_isProper (h p hp)

theorem toList_join_map_text (ps : List Part) :
    (String.join (ps.map Part.text)).toList = ps.flatMap Part.letters := by
  rw [String.toList_join, List.flatMap_map]
  simp [Part.text]

/-- The texts of the parts of a format are the only row of separators and segments, without segments
side by side, that makes up the format. -/
theorem partTexts_eq_iff {f : String} {ps : List String} :
    partTexts f = ps ↔ String.join ps = f ∧ Alternates ps := by
  constructor
  · rintro rfl
    refine ⟨String.toList_inj.1 ?_, ?_⟩
    · rw [partTexts, toList_join_map_text, flatMap_parts]
    · exact (alternates_map_text_iff (isProper_of_mem_parts _)).2 (isChain_parts _)
  · rintro ⟨rfl, halt⟩
    have htexts : (ps.map Part.ofText).map Part.text = ps := by
      simp [Function.comp_def, Part.text_ofText]
    have hproper : ∀ q ∈ ps.map Part.ofText, q.IsProper := by
      intro q hq
      obtain ⟨p, hp, rfl⟩ := List.mem_map.1 hq
      exact Part.isProper_ofText (halt.each p hp)
    have hchain := (alternates_map_text_iff hproper).1 (by rwa [htexts])
    have hjoin : (String.join ps).toList = (ps.map Part.ofText).flatMap Part.letters := by
      rw [← toList_join_map_text, htexts]
    rw [partTexts, hjoin, parts_flatMap_letters hproper hchain, htexts]

/-! ## The tokens of a format that was joined -/

theorem exists_isSeparator_of_isSeparatorText {sep : String} (h : IsSeparatorText sep) :
    ∃ c, isSeparator c = true ∧ sep.toList = [c] := by
  rcases h with rfl | rfl
  · exact ⟨'-', rfl, rfl⟩
  · exact ⟨'/', rfl, rfl⟩

/-- Segments that were joined by a separator are compiled, to their tokens in order. -/
theorem compile_intercalate {sep : String} {segments : List String} (hsep : IsSeparatorText sep)
    (h : ∀ s ∈ segments, IsPlain s) :
    ∃ c, compile (sep.intercalate segments) = .ok c ∧
      c.tokens = segments.flatMap fun s => (tokenize s.toList).getD [] := by
  obtain ⟨ch, hch, hsep⟩ := exists_isSeparator_of_isSeparatorText hsep
  have hplain : ∀ s ∈ segments.map String.toList, ∀ c ∈ s, isSeparator c = false := by
    intro s hs
    obtain ⟨text, htext, rfl⟩ := List.mem_map.1 hs
    exact isPlain_iff.1 (h text htext)
  have hletters : (sep.intercalate segments).toList =
      [ch].intercalate (segments.map String.toList) := by
    rw [String.toList_intercalate, hsep]
  refine ⟨_, compile_eq ?_, ?_⟩
  · rw [hletters]
    exact hasMixedSeparators_intercalate hplain
  · rw [Compiled.ofParts_tokens, hletters, parts_intercalate hch hplain,
      flatMap_intercalate (by rfl), List.flatMap_map, List.flatMap_map]
    simp only [flatMap_tokens_segmentParts]

theorem isPlain_name (t : Token) : IsPlain t.name := by cases t <;> decide

theorem tokenize_letters (t : Token) : tokenize t.letters = some [t] := by
  cases t <;> decide +kernel

/-- The texts of the parts of a format are the only row of separators and segments, without segments
side by side, that makes up the format.  So a format of segments that were joined by a separator is
compiled to the tokens of the segments, and where the segments are tokens, to these tokens. -/
theorem split_is_only_alternation :
    (∀ f ps, partTexts f = ps ↔ String.join ps = f ∧ Alternates ps) ∧
    (∀ sep segments, IsSeparatorText sep → (∀ s ∈ segments, IsPlain s) →
      ∃ c, compile (sep.intercalate segments) = .ok c ∧
        c.tokens = segments.flatMap fun s => (tokenize s.toList).getD []) ∧
    ∀ sep (ts : List Token), IsSeparatorText sep →
      ∃ c, compile (sep.intercalate (ts.map Token.name)) = .ok c ∧ c.tokens = ts := by
  refine ⟨fun f ps => partTexts_eq_iff, fun sep segments => compile_intercalate, ?_⟩
  intro sep ts hsep
  have hplain : ∀ s ∈ ts.map Token.name, IsPlain s := by
    intro s hs
    obtain ⟨t, -, rfl⟩ := List.mem_map.1 hs
    exact isPlain_name t
  obtain ⟨c, hc, htokens⟩ := compile_intercalate hsep hplain
  refine ⟨c, hc, ?_⟩
  rw [htokens, List.flatMap_map]
  simp [Token.name, tokenize_letters]

/-- Separators at both ends and side by side, and segments of which one is no token. -/
theorem split_is_only_alternation_of_empty_segments :
    let segments := ["", "DDMMM", "", "of", "YYYY", ""]
    let row := ["-", "DDMMM", "-", "-", "of", "-", "YYYY", "-"]
    Alternates row ∧ partTexts (String.join row) = row ∧
      "-".intercalate segments = String.join row ∧
      ∃ c, compile ("-".intercalate segments) = .ok c ∧ c.tokens = [.dd, .mmm, .yyyy] := by
  intro segments row
  have halt : Alternates row := by decide
  have htokens : (segments.flatMap fun s => (tokenize s.toList).getD []) = [.dd, .mmm, .yyyy] := by
    decide +kernel
  obtain ⟨c, hc, hcs⟩ := split_is_only_alternation.2.1 "-" segments (Or.inl rfl) (by decide)
  exact ⟨halt, (split_is_only_alternation.1 _ _).2 ⟨rfl, halt⟩, by decide +kernel, c, hc,
    hcs.trans htokens⟩

end NoteArchive.DateFormat
