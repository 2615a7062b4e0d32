import NoteArchive.Proofs.DateFormat.Fitting
import NoteArchive.Proofs.DateFormat.RoundTrip

/-!
# No date is misread

* `Token.Spells`: a text is what a token writes for a date, but names of months may be in another
  letter case.
* `Token.Tells`: what becomes known of a date when a token is read, one case for each reading.
* `Compiled.Reading`: the texts from which a date was read.
* `Reading.exists_lastText`: the last text of a field spells it.

At the end a name that is read as a date has the text of this date in the last token of each field,
and is what the format writes for the date if there is one token for each field.
-/

namespace NoteArchive

open DateFormat

/-- A text is what a token writes for a date.  Names of months may be in another letter case, and
two digits stand for a year from 1950 to 2049. -/
structure Token.Spells (t : Token) (d : Date) (a : List Char) : Prop where
  name : t.slot = .monthName → a.map Char.toLower = (t.render d).map Char.toLower
  number : t.slot ≠ .monthName → a = t.render d
  short : t = .yy → 1950 ≤ d.year ∧ d.year ≤ 2049

theorem Token.Spells.map_toLower {t : Token} {d : Date} {a : List Char} (h : t.Spells d a) :
    a.map Char.toLower = (t.render d).map Char.toLower := by
  by_cases ht : t.slot = .monthName
  · exact h.name ht
  · rw [h.number ht]

theorem Token.field_of_monthName {t : Token} (h : t.slot = .monthName) : t.field = .month := by
  cases t <;> first | rfl | cases h

/-! ## Texts of numbers and of months -/

/-- A number that a token matches is written with all its digits. -/
theorem Token.eq_padded_of_accepts {t : Token} {a : List Char}
    (hdigits : t.admits = Text.isAsciiDigit) (hopen : t.isOpen = false)
    (ha : t.accepts a = true) : a = Date.padded t.width (Text.digitsNumber a) := by
  obtain ⟨hall, hlength⟩ := Token.accepts_iff.1 ha
  have hwidth : a.length = t.width := by simpa [hopen] using hlength
  rw [← hwidth]
  refine (Date.padded_digitsNumber (fun c hc => ?_) (Token.ne_nil_of_accepts ha)).symm
  rw [← Text.isAsciiDigit_eq_isDigit, ← hdigits]
  exact hall c hc

theorem digitsNumber_lt_of_accepts {t : Token} {a : List Char}
    (hdigits : t.admits = Text.isAsciiDigit) (hopen : t.isOpen = false)
    (ha : t.accepts a = true) : Text.digitsNumber a < 10 ^ t.width := by
  obtain ⟨hall, hlength⟩ := Token.accepts_iff.1 ha
  have hwidth : a.length = t.width := by simpa [hopen] using hlength
  rw [← hwidth]
  refine Text.digitsNumber_lt fun c hc => ?_
  rw [← Text.isAsciiDigit_eq_isDigit, ← hdigits]
  exact hall c hc

/-- Whether a text names a month does not hang on its letter case. -/
theorem monthOfName?_congr {a b : List Char} (h : a.map Char.toLower = b.map Char.toLower) :
    monthOfName? a = monthOfName? b := by
  unfold monthOfName?
  rw [h]

/-- There are twelve months.  Three letters that name one are its short name, and more letters are
its full name. -/
theorem of_monthOfName? {a : List Char} {m : Nat} (h : monthOfName? a = some m) :
    (1 ≤ m ∧ m ≤ 12) ∧
      (a.length = 3 → a.map Char.toLower = ((monthTitle m).take 3).map Char.toLower) ∧
      (4 ≤ a.length → a.map Char.toLower = (monthTitle m).map Char.toLower) := by
  have htable : ∀ x ∈ monthNames, (1 ≤ x.2 ∧ x.2 ≤ 12) ∧
      (x.1.toList.length = 3 → x.1.toList = ((monthTitle x.2).take 3).map Char.toLower) ∧
        (4 ≤ x.1.toList.length → x.1.toList = (monthTitle x.2).map Char.toLower) := by
    decide +kernel
  unfold monthOfName? at h
  obtain ⟨⟨name, m'⟩, hfind, rfl⟩ := Option.map_eq_some_iff.1 h
  have hname : name.toList = a.map Char.toLower := by simpa using List.find?_some hfind
  have hrow := htable _ (List.mem_of_find?_eq_some hfind)
  rwa [hname, List.length_map] at hrow

/-! ## What the reading of a token tells -/

/-- What is known of a date after a token was read in a text. -/
inductive Token.Tells (known : PartialDate) (a : List Char) : Token → PartialDate → Prop where
  | day : Tells known a .dd { known with day := some (Text.digitsNumber a) }
  | month : Tells known a .mm { known with month := some (Text.digitsNumber a) }
  | name {t : Token} {m : Nat} (ht : t.slot = .monthName) (hm : monthOfName? a = some m) :
      Tells known a t { known with month := some m }
  | year (hfirst : 1000 ≤ Text.digitsNumber a) :
      Tells known a .yyyy { known with year := some (Text.digitsNumber a : Int) }
  | shortYear :
      Tells known a .yy { known with year := some (resolveShortYear (Text.digitsNumber a)) }

section Tells

variable {t : Token} {a : List Char} {known known' : PartialDate} {d : Date}

theorem readNumber_bind_eq_ok {α : Type} {f : Nat → Except Misread α} {x : α}
    (h : (readNumber a >>= f) = .ok x) : f (Text.digitsNumber a) = .ok x := by
  unfold readNumber at h
  split at h
  · exact h
  · cases h

theorem of_readYear {y : Int} (h : readYear y known = .ok known') :
    1000 ≤ y ∧ known' = { known with year := some y } := by
  unfold readYear firstYear lastYear at h
  split at h
  · cases h
  · cases h
    exact ⟨by omega, rfl⟩

theorem Token.tells_of_readSlot (h : readSlot known t.slot a = .ok known') :
    t.Tells known a known' := by
  have hname : t.slot = .monthName → t.Tells known a known' := by
    intro ht
    rw [ht] at h
    unfold readSlot at h
    dsimp only at h
    split at h
    · cases h
    · next m hm =>
      cases h
      exact .name ht hm
  cases t with
  | dd =>
    have h := readNumber_bind_eq_ok h
    split at h
    · cases h
    · cases h
      exact .day
  | mm =>
    have h := readNumber_bind_eq_ok h
    split at h
    · cases h
    · cases h
      exact .month
  | mmm => exact hname rfl
  | mmmm => exact hname rfl
  | yyyy =>
    obtain ⟨hfirst, rfl⟩ := of_readYear (readNumber_bind_eq_ok h)
    exact .year (by omega)
  | yy =>
    obtain ⟨-, rfl⟩ := of_readYear (readNumber_bind_eq_ok h)
    exact .shortYear

/-- A token that is read leaves the other fields as they are. -/
theorem Token.Tells.has_of_ne (h : t.Tells known a known') {field : Field} (hne : t.field ≠ field)
    (hd : known'.Has d field) : known.Has d field := by
  cases h with
  | name ht hm =>
    have hmonth := Token.field_of_monthName ht
    cases field <;> first | exact hd | exact absurd hmonth hne
  | _ => cases field <;> first | exact hd | exact absurd rfl hne

/-- A text from which the field of a date is known is what the token writes for the date. -/
theorem Token.Tells.spells (h : t.Tells known a known') (ha : t.accepts a = true)
    (hd : known'.Has d t.field) : t.Spells d a := by
  cases h with
  | day =>
    obtain hday : Text.digitsNumber a = d.day := Option.some.inj hd
    refine ⟨nofun, fun _ => ?_, nofun⟩
    rw [Token.eq_padded_of_accepts rfl rfl ha, hday]
    rfl
  | month =>
    obtain hmonth : Text.digitsNumber a = d.month := Option.some.inj hd
    refine ⟨nofun, fun _ => ?_, nofun⟩
    rw [Token.eq_padded_of_accepts rfl rfl ha, hmonth]
    rfl
  | name ht hm =>
    obtain ⟨-, hshort, hfull⟩ := of_monthOfName? hm
    obtain ⟨-, hlength⟩ := Token.accepts_iff.1 ha
    -- the width of the token decides between the short and the full name
    cases t with
    | mmm =>
      obtain rfl := Option.some.inj (hd : some _ = some d.month)
      exact ⟨fun _ => hshort hlength, fun hne => absurd rfl hne, nofun⟩
    | mmmm =>
      obtain rfl := Option.some.inj (hd : some _ = some d.month)
      exact ⟨fun _ => hfull hlength, fun hne => absurd rfl hne, nofun⟩
    | _ => cases ht
  | year hfirst =>
    have hyear : (Text.digitsNumber a : Int) = d.year := Option.some.inj hd
    refine ⟨nofun, fun _ => ?_, nofun⟩
    rw [Token.eq_padded_of_accepts rfl rfl ha, Int.ofNat_inj.1 hyear]
    rfl
  | shortYear =>
    have hyear : resolveShortYear (Text.digitsNumber a) = d.year := Option.some.inj hd
    have hlt : Text.digitsNumber a < 100 := digitsNumber_lt_of_accepts (t := .yy) rfl rfl ha
    have hbounds := resolveShortYear_bounds hlt
    have hmod : Text.digitsNumber a = d.year % 100 := by
      unfold resolveShortYear at hyear
      split at hyear <;> omega
    refine ⟨nofun, fun _ => ?_, fun _ => by omega⟩
    rw [Token.eq_padded_of_accepts rfl rfl ha, hmod]
    rfl

theorem Token.Tells.le_year (h : t.Tells known a known') (ha : t.accepts a = true)
    (ht : t.field = .year) (hd : known'.Has d .year) : 1000 ≤ d.year := by
  have hspells : t.Spells d a := h.spells ha (ht ▸ hd)
  cases h with
  | year hfirst =>
    have hyear : (Text.digitsNumber a : Int) = d.year := Option.some.inj hd
    omega
  | shortYear => exact Nat.le_trans (by decide) (hspells.short rfl).1
  | name hslot hm =>
    rw [Token.field_of_monthName hslot] at ht
    cases ht
  | _ => cases ht

end Tells

/-! ## The last text of a field -/

theorem readSlots_cons_eq_ok {known known' : PartialDate} {offset : Nat} {slot : Slot}
    {slots : List Slot} {a : List Char} {xs : List (List Char)}
    (h : readSlots known offset (slot :: slots) (a :: xs) = .ok known') :
    ∃ k, readSlot known slot a = .ok k ∧ readSlots k (offset + 1) slots xs = .ok known' := by
  rw [readSlots] at h
  rcases hk : readSlot known slot a with e | k
  · rw [hk] at h
    cases h
  · rw [hk] at h
    exact ⟨k, rfl, h⟩

/-- Either a field was known before, or it is known from the last one of the tokens that stand for
it. -/
theorem last_of_readSlots {ts : List Token} {xs : List (List Char)} {known known' : PartialDate}
    {offset : Nat} {d : Date} {field : Field}
    (h : readSlots known offset (ts.map Token.slot) xs = .ok known') (hd : known'.Has d field) :
    (known.Has d field ∧ ∀ t ∈ ts, t.field ≠ field) ∨
      ∃ t a k k', (ts.zip xs).reverse.find? (·.1.field = field) = some (t, a) ∧
        t.Tells k a k' ∧ k'.Has d field := by
  induction ts generalizing xs known offset with
  | nil =>
    cases h
    exact Or.inl ⟨hd, by simp⟩
  | cons t ts ih =>
    cases xs with
    | nil => cases h
    | cons a xs =>
      obtain ⟨k, hk, hrest⟩ := readSlots_cons_eq_ok h
      have htells := Token.tells_of_readSlot hk
      rw [List.zip_cons_cons, List.reverse_cons, List.find?_append]
      rcases ih hrest with ⟨hhas, hnone⟩ | ⟨u, b, k₁, k₂, hfind, hu⟩
      · have hrest : (ts.zip xs).reverse.find? (·.1.field = field) = none := by
          rw [List.find?_eq_none]
          intro x hx
          simpa using hnone x.1 (List.of_mem_zip (List.mem_reverse.1 hx)).1
        rw [hrest, Option.none_or]
        by_cases ht : t.field = field
        · exact Or.inr ⟨t, a, known, k, by simp [ht], htells, hhas⟩
        · refine Or.inl ⟨htells.has_of_ne ht hhas, ?_⟩
          simpa [ht] using hnone
      · exact Or.inr ⟨u, b, k₁, k₂, by rw [hfind, Option.some_or], hu⟩

theorem has_of_complete {known : PartialDate} {d : Date} (h : known.complete = .ok d) :
    d.IsReal ∧ ∀ field, known.Has d field := by
  unfold PartialDate.complete at h
  split at h
  · next year month day hyear hmonth hday =>
    dsimp only at h
    split at h
    · next hreal =>
      cases h
      have hfirst : 1 ≤ year.toNat := hreal.1
      refine ⟨hreal, fun field => ?_⟩
      cases field with
      | day => exact hday
      | month => exact hmonth
      | year =>
        show known.year = some (year.toNat : Int)
        rw [hyear, Int.toNat_of_nonneg (by omega)]
    · cases h
  · cases h

/-- The last one of the tokens that stand for a field, with its text. -/
def Compiled.lastText (c : Compiled) (texts : List (List Char)) (field : Field) :
    Option (Token × List Char) :=
  (c.tokens.zip texts).reverse.find? (·.1.field = field)

/-- The texts from which a date was read in a stem. -/
structure Compiled.Reading (c : Compiled) (stem : String) (d : Date) (texts : List (List Char)) :
    Prop where
  captures : c.captures (stem.toList ++ noteSuffix) = some texts
  fits : Fits c.pieces texts stem.toList
  isReal : d.IsReal
  known : ∃ known, readSlots ⟨none, none, none⟩ 0 (c.tokens.map Token.slot) texts = .ok known ∧
    ∀ field, known.Has d field

theorem Compiled.exists_reading {c : Compiled} {stem : String} {d : Date}
    (h : c.readDate stem = .ok d) : ∃ texts, c.Reading stem d texts := by
  rcases htexts : c.captures (stem.toList ++ noteSuffix) with _ | texts
  · rw [Compiled.readDate, Compiled.readDateBy, htexts] at h
    cases h
  · obtain ⟨r, hr, hfits⟩ := fits_of_captures htexts
    obtain rfl : stem.toList = r := List.append_cancel_right hr
    rw [Compiled.readDate_eq_of_captures htexts] at h
    rcases hk : readSlots ⟨none, none, none⟩ 0 (c.tokens.map Token.slot) texts with e | known
    · rw [hk] at h
      cases h
    · rw [hk] at h
      obtain ⟨hreal, hhas⟩ := has_of_complete h
      exact ⟨texts, htexts, hfits, hreal, known, hk, hhas⟩

namespace Compiled.Reading

variable {c : Compiled} {stem : String} {d : Date} {texts : List (List Char)}

theorem forall₂_accepts (h : c.Reading stem d texts) :
    List.Forall₂ (fun t a => t.accepts a = true) c.tokens texts :=
  h.fits.forall₂_accepts

theorem map_fst_zip (h : c.Reading stem d texts) :
    (c.tokens.zip texts).map Prod.fst = c.tokens :=
  List.map_fst_zip (Nat.le_of_eq h.forall₂_accepts.length_eq)

theorem lastToken_of_lastText (h : c.Reading stem d texts) {field : Field} {t : Token}
    {a : List Char} (hlast : c.lastText texts field = some (t, a)) :
    c.lastToken field = some t := by
  unfold Compiled.lastText at hlast
  unfold Compiled.lastToken
  rw [← h.map_fst_zip, ← List.map_reverse, List.find?_map]
  exact congrArg (Option.map Prod.fst) hlast

/-- Every field has a token, and the text of its last token is what the token writes for the
date. -/
theorem exists_lastText (h : c.Reading stem d texts) (field : Field) :
    ∃ t a, c.lastText texts field = some (t, a) ∧ t.Spells d a ∧
      (field = .year → 1000 ≤ d.year) := by
  obtain ⟨known, hread, hhas⟩ := h.known
  -- nothing is known before the first token is read
  rcases last_of_readSlots hread (hhas field) with ⟨hnone, -⟩ | ⟨t, a, k, k', hfind, htells, hk⟩
  · cases field <;> cases hnone
  · have hmem : (t, a) ∈ c.tokens.zip texts :=
      List.mem_reverse.1 (List.mem_of_find?_eq_some hfind)
    have ha : t.accepts a = true := List.forall₂_zip h.forall₂_accepts hmem
    obtain rfl : t.field = field := by simpa using List.find?_some hfind
    refine ⟨t, a, hfind, htells.spells ha hk, fun hyear => htells.le_year ha hyear ?_⟩
    rwa [hyear] at hk

end Compiled.Reading

/-! ## One token for each field -/

theorem eq_of_countP_eq_one {α : Type} {p : α → Bool} {l : List α} (h : l.countP p = 1) {x y : α}
    (hx : x ∈ l) (hy : y ∈ l) (hpx : p x = true) (hpy : p y = true) : x = y := by
  rw [List.countP_eq_length_filter] at h
  obtain ⟨z, hz⟩ := List.length_eq_one_iff.1 h
  have hx' : x ∈ l.filter p := List.mem_filter.2 ⟨hx, hpx⟩
  have hy' : y ∈ l.filter p := List.mem_filter.2 ⟨hy, hpy⟩
  rw [hz, List.mem_singleton] at hx' hy'
  rw [hx', hy']

/-- Where each field has one token the last text of a field is the only one. -/
theorem Compiled.Reading.spells_of_countP {c : Compiled} {stem : String} {d : Date}
    {texts : List (List Char)} (h : c.Reading stem d texts)
    (hone : ∀ field, c.tokens.countP (·.field = field) = 1) :
    ∀ x ∈ c.tokens.zip texts, x.1.Spells d x.2 := by
  intro x hx
  obtain ⟨t, a, hlast, hspells, -⟩ := h.exists_lastText x.1.field
  have hmem : (t, a) ∈ c.tokens.zip texts :=
    List.mem_reverse.1 (List.mem_of_find?_eq_some hlast)
  have hcount : (c.tokens.zip texts).countP (fun y => decide (y.1.field = x.1.field)) = 1 := by
    rw [← hone x.1.field]
    conv_rhs => rw [← h.map_fst_zip, List.countP_map]
    rfl
  obtain rfl := eq_of_countP_eq_one hcount hx hmem (by simp) (by simpa using List.find?_some hlast)
  exact hspells

/-- Texts that are what the tokens write for a date make up what the format writes, but for the
letter case. -/
theorem DateFormat.Fits.map_toLower {ps : List Piece} {xs : List (List Char)} {s : List Char}
    (h : Fits ps xs s) {d : Date}
    (hxs : ∀ x ∈ (ps.filterMap Piece.token?).zip xs, x.1.Spells d x.2) :
    s.map Char.toLower = (ps.flatMap (Piece.render d)).map Char.toLower := by
  induction h with
  | nil => rfl
  | separator c rest ih => exact congrArg (c.toLower :: ·) (ih hxs)
  | @token ps xs s a t ha rest ih =>
    have hfirst : t.Spells d a := hxs (t, a) List.mem_cons_self
    rw [List.flatMap_cons, List.map_append, List.map_append,
      ih fun x hx => hxs x (List.mem_cons_of_mem _ hx), hfirst.map_toLower]
    rfl

/-! ## The dates of names -/

/-- A name that is read as a date matches the format, the date is in the calendar and its year has
four digits, and the text of the last token of each field is what this token writes for the date.
With one token for each field the name is what the format writes, where only the names of
months have letters, and their case is free. -/
theorem readDate_faithful {f : String} {c : Compiled} {stem : String} {d : Date}
    (hc : compile? f = some c) (h : c.readDate stem = .ok d) :
    (d.IsReal ∧ 1000 ≤ d.year ∧ d.year ≤ 9999) ∧ c.isMatch (stem ++ ".md") = true ∧
      (∃ texts, c.captures (stem.toList ++ noteSuffix) = some texts ∧
        texts.length = c.tokens.length ∧
        ∀ field, ∃ t a, c.lastText texts field = some (t, a) ∧ c.lastToken field = some t ∧
          t.Spells d a) ∧
      ((∀ field, c.tokens.countP (·.field = field) = 1) →
        stem.toList.map Char.toLower = (render f d).toList.map Char.toLower) := by
  obtain rfl := ofParts_of_compile? hc
  obtain ⟨texts, hr⟩ := Compiled.exists_reading h
  obtain ⟨-, -, -, -, hyear⟩ := hr.exists_lastText .year
  refine ⟨⟨hr.isReal, hyear rfl, hr.isReal.2.1⟩, ?_, ⟨texts, hr.captures, ?_, fun field => ?_⟩,
    fun hone => ?_⟩
  · unfold Compiled.isMatch
    rw [String.toList_append]
    exact Option.isSome_of_eq_some hr.captures
  · exact hr.forall₂_accepts.length_eq.symm
  · obtain ⟨t, a, hlast, hspells, -⟩ := hr.exists_lastText field
    exact ⟨t, a, hlast, hr.lastToken_of_lastText hlast, hspells⟩
  · rw [render_eq_pieces]
    exact hr.fits.map_toLower (hr.spells_of_countP hone)

/-- The month in other letters, a part that is not recognised, and a year of two digits. -/
theorem readDate_faithful_of_leap_day :
    let f := "DD-notes-MMMM-YY"
    let stem := "29--feBRUARY-20"
    let d : Date := ⟨2020, 2, 29⟩
    ∃ c, compile? f = some c ∧ c.readDate stem = .ok d ∧
      (∀ field, c.tokens.countP (·.field = field) = 1) ∧ c.isMatch (stem ++ ".md") = true ∧
      stem.toList.map Char.toLower = (render f d).toList.map Char.toLower := by
  have hc : compile? "DD-notes-MMMM-YY" = some (.ofParts "DD-notes-MMMM-YY") := by decide +kernel
  have h : (Compiled.ofParts "DD-notes-MMMM-YY").readDate "29--feBRUARY-20" =
      .ok ⟨2020, 2, 29⟩ := by decide +kernel
  have hone : ∀ field,
      (Compiled.ofParts "DD-notes-MMMM-YY").tokens.countP (·.field = field) = 1 := by
    intro field
    cases field <;> decide +kernel
  obtain ⟨-, hmatch, -, hstem⟩ := readDate_faithful hc h
  exact ⟨_, hc, h, hone, hmatch, hstem hone⟩

end NoteArchive
