import NoteArchive.Proofs.DateFormat.Faithful

/-!
# What a format writes for a date is read as no other date

A name that a format writes for a date need not be read at all: the full name of May is too short
for its token, and where two full names stand side by side the first one takes letters of the
second.  But the first three letters of a text that is read tell the month, and so where its name
ends.  A name that is read is therefore cut as it was written.

* `Token.eq_render_of_append`: a text that is read in front of a name is what was written there.
* `Fits.eq_render`: so it is for all texts of a name.
* `eq_of_readDate_render`: the date that is read is the one that was written.
-/

namespace NoteArchive

open DateFormat

/-- A name of a month is told by its first three letters. -/
theorem eq_of_take_monthTitle {m n : Nat} (hm : 1 ≤ m ∧ m ≤ 12) (hn : 1 ≤ n ∧ n ≤ 12)
    (h : ((monthTitle m).take 3).map Char.toLower = ((monthTitle n).take 3).map Char.toLower) :
    m = n := by
  have hsame := monthOfName?_congr h
  rw [(monthOfName?_monthTitle hm.1 hm.2).2, (monthOfName?_monthTitle hn.1 hn.2).2] at hsame
  exact Option.some.inj hsame

/-- A text that is read in front of a name is what the token wrote there. -/
theorem Token.eq_render_of_append {d : Date} (hd : d.IsReal) {t : Token} {a r r' : List Char}
    (ha : t.accepts a = true) (hname : t.slot = .monthName → ∃ m, monthOfName? a = some m)
    (h : a ++ r = t.render d ++ r') : a = t.render d := by
  obtain ⟨-, hwidth⟩ := Token.accepts_iff.1 ha
  -- it is enough to know that the text ends where the token ended
  suffices hlength : a.length = (t.render d).length from (List.append_inj h hlength).1
  by_cases hopen : t.isOpen = true
  · obtain rfl : t = .mmmm := by cases t <;> first | rfl | cases hopen
    change a ++ r = monthTitle d.month ++ r' at h
    show a.length = (monthTitle d.month).length
    obtain ⟨-, -, hmonth, hmonth', -, -⟩ := hd
    obtain ⟨m, hm⟩ := hname rfl
    obtain ⟨hbounds, -, hfull⟩ := of_monthOfName? hm
    have hletters : a.map Char.toLower = (monthTitle m).map Char.toLower := hfull hwidth
    have hfour : 4 ≤ a.length := hwidth
    have hfront : a.take 3 = (monthTitle d.month).take 3 := by
      have hthree := congrArg (List.take 3) h
      rwa [List.take_append_of_le_length (by omega),
        List.take_append_of_le_length (length_monthTitle hmonth hmonth').1] at hthree
    obtain rfl : m = d.month := by
      apply eq_of_take_monthTitle hbounds ⟨hmonth, hmonth'⟩
      rw [List.map_take, ← hletters, ← List.map_take, hfront]
    simpa using congrArg List.length hletters
  · have hmay : t = .mmmm → d.month ≠ 5 := by
      rintro rfl
      exact absurd rfl hopen
    have hwidth' := (Token.accepts_iff.1 (Token.accepts_render hd hmay)).2
    rw [if_neg hopen] at hwidth hwidth'
    rw [hwidth, hwidth']

/-- Texts that are read and make up what was written for a date are what the tokens wrote. -/
theorem DateFormat.Fits.eq_render {d : Date} (hd : d.IsReal) {ps : List Piece}
    {xs : List (List Char)} {s : List Char} (h : Fits ps xs s)
    (hname : List.Forall₂ (fun t a => t.slot = .monthName → ∃ m, monthOfName? a = some m)
      (ps.filterMap Piece.token?) xs)
    (hs : s = ps.flatMap (Piece.render d)) :
    xs = (ps.filterMap Piece.token?).map (Token.render d) := by
  induction h with
  | nil => rfl
  | separator c rest ih => exact ih hname (List.cons.inj hs).2
  | @token ps xs s a t ha rest ih =>
    obtain ⟨hfirst, hrest⟩ := List.forall₂_cons.1 hname
    obtain rfl : a = t.render d := Token.eq_render_of_append hd ha hfirst hs
    exact congrArg (t.render d :: ·) (ih hrest (List.append_cancel_left hs))

/-- Where a name is read, the texts of months name months. -/
theorem monthNames_of_readSlots {ts : List Token} {xs : List (List Char)}
    {known known' : PartialDate} {offset : Nat}
    (hlength : ts.length = xs.length)
    (h : readSlots known offset (ts.map Token.slot) xs = .ok known') :
    List.Forall₂ (fun t a => t.slot = .monthName → ∃ m, monthOfName? a = some m) ts xs := by
  induction ts generalizing xs known offset with
  | nil =>
    cases List.length_eq_zero_iff.1 hlength.symm
    exact .nil
  | cons t ts ih =>
    cases xs with
    | nil => cases h
    | cons a xs =>
      obtain ⟨k, hk, hrest⟩ := readSlots_cons_eq_ok h
      refine .cons (fun ht => ?_) (ih (by simpa using hlength) hrest)
      cases Token.tells_of_readSlot hk with
      | name _ hm => exact ⟨_, hm⟩
      | _ => cases ht

theorem eq_of_has {known : PartialDate} {d d' : Date} (h : ∀ field, known.Has d field)
    (h' : ∀ field, known.Has d' field) : d = d' := by
  have hday : some d.day = some d'.day := (h .day).symm.trans (h' .day)
  have hmonth : some d.month = some d'.month := (h .month).symm.trans (h' .month)
  have hyear : some (d.year : Int) = some (d'.year : Int) := (h .year).symm.trans (h' .year)
  cases d
  cases d'
  rw [Option.some_inj] at hday hmonth hyear
  rw [Date.mk.injEq]
  exact ⟨Int.ofNat_inj.1 hyear, hmonth, hday⟩

/-- What a format writes for a date is read as this date, if it is read at all.  The last year
decides which years can be written. -/
theorem eq_of_readDate_render {f : String} {c : Compiled} {today d : Date}
    (hc : compile? f = some c) (hreal : today.IsReal) (hyear : 1000 ≤ today.year)
    (hshort : c.lastToken .year = some .yy → 1950 ≤ today.year ∧ today.year ≤ 2049)
    (h : c.readDate (render f today) = .ok d) : d = today := by
  obtain rfl := ofParts_of_compile? hc
  obtain ⟨texts, hr⟩ := Compiled.exists_reading h
  obtain ⟨known, hknown, -⟩ := hr.known
  -- the name is cut as it was written, so the tokens tell the fields of the date
  obtain rfl : texts = (Compiled.ofParts f).tokens.map (Token.render today) :=
    hr.fits.eq_render hreal (monthNames_of_readSlots hr.forall₂_accepts.length_eq hknown)
      (render_eq_pieces f today)
  have haccepts : ∀ t ∈ (Compiled.ofParts f).tokens, t.accepts (t.render today) = true := by
    have hall := hr.forall₂_accepts
    rwa [List.forall₂_map_right_iff, List.forall₂_same] at hall
  rw [readDate_of_captures hreal hyear haccepts hr.captures] at h
  refine eq_of_has (has_of_complete h).2 fun field => ?_
  obtain ⟨t, a, hlast, -⟩ := hr.exists_lastText field
  have ht := hr.lastToken_of_lastText hlast
  refine has_learnAll ht ?_
  rintro rfl
  obtain rfl : field = .year := (field_of_lastToken ht).symm
  exact hshort ht

end NoteArchive
