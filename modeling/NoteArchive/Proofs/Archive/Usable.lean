import NoteArchive.Proofs.Archive.Destinations
import NoteArchive.Proofs.Archive.Stems

/-!
# Formats with which notes are archived

A name that matches a format has the same separators, and a date is read only where each field has a
token.  That this is also enough is shown by a day in June: there every token writes as little as it
can, so that what is written is cut in one way only, whatever tokens stand side by side.

* `Fits.unique_of_length`: a name of the least length is cut in one way only.
* `readDate_render_of_june`: what a format writes for a day in June is read as this day.

At the end a format is told to be of use: some note is moved with it.
-/

namespace NoteArchive

open DateFormat

/-! ## What a date tells of its format -/

namespace DateFormat

variable {ps : List Piece} {xs : List (List Char)} {s : List Char}

/-- A date is read only where each field has a token. -/
theorem exists_token_of_readDate {c : Compiled} {stem : String} {d : Date}
    (h : c.readDate stem = .ok d) (field : Field) : ∃ t ∈ c.tokens, t.field = field := by
  obtain ⟨texts, hr⟩ := Compiled.exists_reading h
  obtain ⟨t, a, hlast, -⟩ := hr.exists_lastText field
  have ht := hr.lastToken_of_lastText hlast
  exact ⟨t, List.mem_reverse.1 (List.mem_of_find?_eq_some ht), field_of_lastToken ht⟩

/-! ## The least length of a name -/

theorem Token.width_le_of_accepts {t : Token} {a : List Char} (ha : t.accepts a = true) :
    t.width ≤ a.length := by
  have hlength := (Token.accepts_iff.1 ha).2
  split at hlength
  · exact hlength
  · exact Nat.le_of_eq hlength.symm

/-- The least length of what a piece stands for. -/
def Piece.width : Piece → Nat
  | .separator _ => 1
  | .token t => t.width

/-- The least length of what some pieces stand for. -/
def leastLength : List Piece → Nat
  | [] => 0
  | p :: ps => p.width + leastLength ps

theorem Fits.leastLength_le (h : Fits ps xs s) : leastLength ps ≤ s.length := by
  induction h with
  | nil => exact Nat.le_refl _
  | separator c rest ih =>
    simp only [leastLength, Piece.width, List.length_cons]
    omega
  | token ha rest ih =>
    have hwidth := Token.width_le_of_accepts ha
    simp only [leastLength, Piece.width, List.length_append]
    omega

/-- A name of the least length is cut in one way only. -/
theorem Fits.unique_of_length (h : Fits ps xs s) (hs : s.length = leastLength ps)
    {ys : List (List Char)} (h' : Fits ps ys s) : xs = ys := by
  induction h generalizing ys with
  | nil =>
    cases h'
    rfl
  | separator c rest ih =>
    cases h' with
    | separator _ rest' =>
      refine ih ?_ rest'
      simp only [leastLength, Piece.width, List.length_cons] at hs
      omega
  | @token ps xs s a t ha rest ih =>
    obtain ⟨b, ys, r, hb, rfl, heq, rest'⟩ := fits_token_iff.1 h'
    -- no text can be longer than the other, as none of the rests is too short
    have hle := rest.leastLength_le
    have hle' := rest'.leastLength_le
    have hwidth := Token.width_le_of_accepts ha
    have hwidth' := Token.width_le_of_accepts hb
    have hlength := congrArg List.length heq
    simp only [leastLength, Piece.width, List.length_append] at hs hlength
    obtain ⟨rfl, rfl⟩ := List.append_inj heq (by omega)
    rw [ih (by omega) rest']

end DateFormat

/-! ## The name of a day in June -/

section June

variable {d : Date} (hd : d.IsReal) (hjune : d.month = 6)

include hd hjune

theorem Token.accepts_render_of_june (t : Token) : t.accepts (t.render d) = true :=
  accepts_render hd fun _ => by omega

/-- In June every token writes as little as it can. -/
theorem Token.length_render_of_june (t : Token) : (t.render d).length = t.width := by
  have hlength := (accepts_iff.1 (accepts_render_of_june hd hjune t)).2
  cases hopen : t.isOpen with
  | false => simpa [hopen] using hlength
  | true =>
    obtain rfl : t = .mmmm := by cases t <;> first | rfl | cases hopen
    show (monthTitle d.month).length = 4
    rw [hjune]
    decide +kernel

/-- What is written makes up the name. -/
theorem DateFormat.fits_render_of_june (ps : List Piece) :
    Fits ps ((ps.filterMap Piece.token?).map (Token.render d)) (ps.flatMap (Piece.render d)) := by
  induction ps with
  | nil => exact .nil
  | cons p ps ih =>
    cases p with
    | separator c => exact .separator c ih
    | token t => exact .token (t.accepts_render_of_june hd hjune) ih

theorem DateFormat.length_render_of_june (ps : List Piece) :
    (ps.flatMap (Piece.render d)).length = leastLength ps := by
  induction ps with
  | nil => rfl
  | cons p ps ih =>
    have hwidth : (p.render d).length = p.width := by
      cases p with
      | separator c => rfl
      | token t => exact t.length_render_of_june hd hjune
    rw [List.flatMap_cons, List.length_append, hwidth, ih]
    rfl

theorem isMatch_render_of_june (f : String) :
    (Compiled.ofParts f).isMatch (render f d ++ ".md") = true := by
  refine Compiled.isMatch_iff.2 ⟨_, _, ?_, fits_render_of_june hd hjune _⟩
  rw [String.toList_append, render_eq_pieces]
  rfl

theorem not_mem_render_of_june {f : String} (hf : '/' ∉ f.toList) :
    '/' ∉ (render f d ++ ".md").toList := by
  rw [String.toList_append, List.mem_append]
  rintro (h | h)
  · rw [render_eq_pieces, (fits_render_of_june hd hjune _).mem_iff_of_isSeparator rfl,
      separator_mem_pieces_iff] at h
    exact hf h.1
  · exact absurd h (by decide)

/-- What a format with all three fields writes for a day in June is read as this day. -/
theorem readDate_render_of_june {f : String}
    (hfields : ∀ field, ∃ t ∈ (Compiled.ofParts f).tokens, t.field = field)
    (hyear : 1950 ≤ d.year ∧ d.year ≤ 2049) :
    (Compiled.ofParts f).readDate (render f d) = .ok d := by
  have hfits := fits_render_of_june hd hjune (Compiled.ofParts f).pieces
  have hlength := length_render_of_june hd hjune (Compiled.ofParts f).pieces
  obtain ⟨xs, hxs⟩ := Option.isSome_iff_exists.1 hfits.isSome_captures
  obtain ⟨r, hr, hcut⟩ := fits_of_captures hxs
  rw [← List.append_cancel_right hr] at hcut
  -- there is no other cut than the one that was written
  obtain rfl := hfits.unique_of_length hlength hcut
  rw [← render_eq_pieces] at hxs
  rw [readDate_of_captures hd (by omega) (fun t _ => t.accepts_render_of_june hd hjune) hxs]
  apply complete_of_has hd
  intro field
  obtain ⟨t, ht⟩ := exists_lastToken (hfields field)
  exact has_learnAll ht fun _ => hyear

end June

/-! ## Notes that are moved -/

/-- Without a slash a path lies under no folder. -/
theorem not_isUnderFolder_of_not_mem {path folder : String} (h : '/' ∉ path.toList) :
    isUnderFolder path folder = false := by
  rw [Bool.eq_false_iff]
  intro hunder
  have hfront := List.isPrefixOf_iff_prefix.1 hunder
  exact h (hfront.subset (by simp))

/-- A note goes if it has a date other than the day of the batch and is not in the target folder. -/
theorem Batch.isMove_verdict_of_readDate {b : Batch} {n : Note} {date : Date}
    (h : b.format.readDate n.stem = .ok date) (hday : date ≠ b.today)
    (hunder : isUnderFolder n.path b.settings.targetFolder = false) :
    (b.verdict n).isMove = true := by
  unfold verdict
  rw [h]
  dsimp only
  rw [if_neg hday, hunder]
  rfl

theorem Batch.plans_of_isMove {b : Batch} {n : Note} (hc : isCandidate b.format n = true)
    (h : (b.verdict n).isMove = true) : ∃ D, b.Plans (n, D) := by
  cases hv : b.verdict n with
  | move D => exact ⟨D, hc, hv⟩
  | skip reason =>
    rw [hv] at h
    cases h

/-- A format is of use exactly when it has no slash and a token for each field: then there is a note
that is moved, whatever the target folder is, and otherwise there is none. -/
theorem exists_moved_iff {f : String} (hf : isValid f = true) (settings : Settings) :
    ∃ c, compile? f = some c ∧
      ((∃ (name : String) (location : List String) (today : Date),
          '/' ∉ name.toList ∧ today.IsReal ∧
          let note : Note := ⟨name, "/".intercalate (location ++ [name]), "md"⟩
          isCandidate c note = true ∧ (Batch.verdict ⟨settings, c, today⟩ note).isMove = true) ↔
        '/' ∉ f.toList ∧ ∀ field, ∃ t ∈ findTokens f.toList, t.field = field) := by
  have hmixed : hasMixedSeparators f.toList = false := by
    unfold isValid at hf
    simpa using (Bool.and_eq_true_iff.1 hf).2
  have htokens : (Compiled.ofParts f).tokens = findTokens f.toList := Compiled.ofParts_tokens f
  rw [← htokens]
  refine ⟨.ofParts f, by simp [compile?, hmixed], ?_, ?_⟩
  · rintro ⟨name, location, today, hname, -, hcandidate, hmove⟩
    have hmatch := (Bool.and_eq_true_iff.1 hcandidate).2
    obtain ⟨D, hplans⟩ := Batch.plans_of_isMove hcandidate hmove
    obtain ⟨date, hread, -⟩ := hplans.date
    exact ⟨fun hslash => hname (mem_of_isMatch rfl hmatch hslash), exists_token_of_readDate hread⟩
  · rintro ⟨hslash, hfields⟩
    -- the note of a day in June, on the day after
    let d : Date := ⟨2024, 6, 15⟩
    have hd : d.IsReal := by decide
    have hname := not_mem_render_of_june hd rfl hslash
    let note : Note := ⟨render f d ++ ".md", "/".intercalate [render f d ++ ".md"], "md"⟩
    have hread : (Compiled.ofParts f).readDate note.stem = .ok d := by
      rw [Note.stem_of_append rfl rfl]
      exact readDate_render_of_june hd rfl hfields (by decide)
    have hday : d ≠ ⟨2024, 6, 16⟩ := by
      show (⟨2024, 6, 15⟩ : Date) ≠ _
      decide
    refine ⟨note.name, [], ⟨2024, 6, 16⟩, hname, by decide, ?_, ?_⟩
    · exact Bool.and_eq_true_iff.2 ⟨rfl, isMatch_render_of_june hd rfl f⟩
    · exact Batch.isMove_verdict_of_readDate hread hday (not_isUnderFolder_of_not_mem hname)

/-- Names of months and a short year without separators, in whatever order. -/
theorem exists_moved_iff_of_compact_format :
    let f := "MMMMMMMMMMMYYDDMMMM"
    ∃ c, compile? f = some c ∧ ∃ (name : String) (location : List String) (today : Date),
      '/' ∉ name.toList ∧ today.IsReal ∧
      let note : Note := ⟨name, "/".intercalate (location ++ [name]), "md"⟩
      isCandidate c note = true ∧
        (Batch.verdict ⟨Settings.usual, c, today⟩ note).isMove = true := by
  obtain ⟨c, hc, h⟩ := exists_moved_iff (f := "MMMMMMMMMMMYYDDMMMM") (by decide +kernel)
    Settings.usual
  refine ⟨c, hc, h.2 ⟨by decide, fun field => ?_⟩⟩
  cases field <;> decide +kernel

end NoteArchive
