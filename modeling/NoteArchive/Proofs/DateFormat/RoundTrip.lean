import Mathlib.Data.List.Induction
import NoteArchive.Proofs.DateFormat.Matching

/-!
# Reading back the name of a date

* `Compiled.lastToken`: the token of a field that counts.
* `PartialDate.Has`: a field of a date is known.
* `readSlots_render`, `has_learnAll`: after the texts of all tokens the fields of the date are
  known, each from its last token.
* `isChain_tokens`: where names of months can stand in a part.
* `readDate_of_captures`: how a name is read in which every token matches what it writes.

At the end what a format writes for a date is read as this date.
-/

namespace NoteArchive

open DateFormat

/-- The last token of a field. -/
def Compiled.lastToken (c : Compiled) (field : Field) : Option Token :=
  c.tokens.reverse.find? (·.field = field)

/-! ## What becomes known -/

section Learn

variable {d : Date} {known : PartialDate} {t : Token}

/-- A field of a date is known. -/
def PartialDate.Has (known : PartialDate) (d : Date) : Field → Prop
  | .day => known.day = some d.day
  | .month => known.month = some d.month
  | .year => known.year = some (d.year : Int)

/-- What is known after some tokens have been read in the name of a date. -/
def PartialDate.learnAll (known : PartialDate) (d : Date) (ts : List Token) : PartialDate :=
  ts.foldl (fun known t => known.learn d t) known

/-- A token tells its field of a date; two digits tell a year only from 1950 to 2049. -/
theorem has_learn (h : t = .yy → 1950 ≤ d.year ∧ d.year ≤ 2049) :
    (known.learn d t).Has d t.field := by
  cases t with
  | yy =>
    obtain ⟨hle, hle'⟩ := h rfl
    show some (resolveShortYear (d.year % 100 : Nat)) = some (d.year : Int)
    rw [resolveShortYear_mod hle hle']
  | _ => rfl

/-- A token leaves the other fields as they are. -/
theorem has_learn_of_ne {field : Field} (hne : t.field ≠ field) (h : known.Has d field) :
    (known.learn d t).Has d field := by
  cases field with
  | day => cases t <;> first | exact h | exact absurd rfl hne
  | month => cases t <;> first | exact h | exact absurd rfl hne
  | year => cases t <;> first | exact h | exact absurd rfl hne

/-- After some tokens a field is known from the last one of them that stands for it. -/
theorem has_learnAll {field : Field} {ts : List Token}
    (hlast : ts.reverse.find? (·.field = field) = some t)
    (h : t = .yy → 1950 ≤ d.year ∧ d.year ≤ 2049) :
    (known.learnAll d ts).Has d field := by
  induction ts using List.reverseRecOn with
  | nil => cases hlast
  | append_singleton ts u ih =>
    rw [List.reverse_append, List.reverse_singleton, List.singleton_append] at hlast
    rw [PartialDate.learnAll, List.foldl_append, List.foldl_cons, List.foldl_nil]
    by_cases hu : u.field = field
    · rw [List.find?_cons_of_pos (by simpa using hu)] at hlast
      cases hlast
      rw [← hu]
      exact has_learn h
    · rw [List.find?_cons_of_neg (by simpa using hu)] at hlast
      exact has_learn_of_ne hu (ih hlast)

theorem readSlots_render (hd : d.IsReal) (hyear : 1000 ≤ d.year) (ts : List Token)
    (known : PartialDate) (offset : Nat) :
    readSlots known offset (ts.map Token.slot) (ts.map (Token.render d)) =
      .ok (known.learnAll d ts) := by
  induction ts generalizing known offset with
  | nil => rfl
  | cons t ts ih =>
    rw [List.map_cons, List.map_cons, readSlots, readSlot_render hd hyear]
    exact ih _ _

theorem complete_of_has (hd : d.IsReal) (h : ∀ field, known.Has d field) :
    known.complete = .ok d := by
  have hday : known.day = some d.day := h .day
  have hmonth : known.month = some d.month := h .month
  have hyear : known.year = some (d.year : Int) := h .year
  unfold PartialDate.complete
  rw [hday, hmonth, hyear]
  show (if Date.IsReal ⟨(d.year : Int).toNat, d.month, d.day⟩ then _ else _) = _
  rw [Int.toNat_natCast]
  exact if_pos hd

end Learn

/-! ## Where names of months stand -/

/-- Two names of months stand side by side in a part only as a full one and a short one, or two
full ones. -/
theorem isChain_tokens {p : Part} (hp : ¬ [Token.mmmm, Token.mmmm] <:+: p.tokens) :
    p.tokens.IsChain Token.IsApart := by
  rw [List.isChain_iff_forall_rel_of_append_cons_cons]
  intro t u before ts h ht hu
  have hcut : tokensOf p.letters = some (before ++ t :: u :: ts) := by
    rw [Part.tokensOf_tokens (by simp [h]), h]
  have hinfix : [t, u] <:+: p.tokens := ⟨before, ts, by simp [h]⟩
  -- a short name before another name would have been cut as a full one
  cases t with
  | mmm =>
    have hne := not_letters_after_mmm hcut
    cases u with
    | mmm => exact absurd rfl hne.1
    | mmmm => exact absurd rfl hne.2
    | _ => cases hu
  | mmmm =>
    cases u with
    | mmm => exact ⟨rfl, rfl⟩
    | mmmm => exact absurd hinfix hp
    | _ => cases hu
  | _ => cases ht

/-! ## The round trip -/

theorem exists_lastToken {c : Compiled} {field : Field} (h : ∃ t ∈ c.tokens, t.field = field) :
    ∃ t, c.lastToken field = some t := by
  obtain ⟨t, ht, hfield⟩ := h
  unfold Compiled.lastToken
  rw [← Option.isSome_iff_exists, List.find?_isSome]
  exact ⟨t, List.mem_reverse.2 ht, by simpa using hfield⟩

theorem field_of_lastToken {c : Compiled} {field : Field} {t : Token}
    (h : c.lastToken field = some t) : t.field = field := by
  simpa using List.find?_some h

theorem ofParts_of_compile? {f : String} {c : Compiled} (h : compile? f = some c) :
    c = Compiled.ofParts f := by
  unfold compile? at h
  split at h
  · cases h
  · exact (Option.some.inj h).symm

/-- A name in which every token matches what it writes for a date is read as the fields of it. -/
theorem readDate_of_captures {c : Compiled} {d : Date} {stem : String} (hd : d.IsReal)
    (hyear : 1000 ≤ d.year) (haccepts : ∀ t ∈ c.tokens, t.accepts (t.render d) = true)
    (h : c.captures (stem.toList ++ noteSuffix) = some (c.tokens.map (Token.render d))) :
    c.readDate stem = (PartialDate.learnAll ⟨none, none, none⟩ d c.tokens).complete := by
  have hfull : (c.tokens.map (Token.render d)).filter (! ·.isEmpty) =
      c.tokens.map (Token.render d) := by
    rw [List.filter_eq_self]
    intro a ha
    obtain ⟨t, ht, rfl⟩ := List.mem_map.1 ha
    simpa using Token.ne_nil_of_accepts (haccepts t ht)
  unfold Compiled.readDate Compiled.readDateBy
  rw [h]
  show (do
    let known ← readSlots ⟨none, none, none⟩ 0 (c.tokens.map Token.slot)
      ((c.tokens.map (Token.render d)).filter (! ·.isEmpty))
    known.complete) = _
  rw [hfull, readSlots_render hd hyear]
  rfl

/-- What a format writes for a date is read as this date, if the format has all three fields and
nowhere two full names of the month in a row.  The last year decides which years can be written,
and the name of May is too short for a full name. -/
theorem readDate_render {f : String} {c : Compiled} {d : Date} (hc : compile? f = some c)
    (hfields : ∀ field, ∃ t ∈ c.tokens, t.field = field)
    (hmonths : ∀ p ∈ parts f.toList, ¬ [Token.mmmm, Token.mmmm] <:+: p.tokens)
    (hd : d.IsReal) (hyear : 1000 ≤ d.year)
    (hshort : c.lastToken .year = some .yy → 1950 ≤ d.year ∧ d.year ≤ 2049)
    (hmay : .mmmm ∈ c.tokens → d.month ≠ 5) :
    c.readDate (render f d) = .ok d := by
  obtain rfl := ofParts_of_compile? hc
  have haccepts : ∀ t ∈ (Compiled.ofParts f).tokens, t.accepts (t.render d) = true := by
    intro t ht
    apply Token.accepts_render hd
    rintro rfl
    exact hmay ht
  -- every token takes what it wrote, so the last token of each field tells the field
  have htexts := Compiled.captures_render (fun p hp => isChain_tokens (hmonths p hp)) haccepts
  rw [readDate_of_captures hd hyear haccepts htexts]
  apply complete_of_has hd
  intro field
  obtain ⟨t, ht⟩ := exists_lastToken (hfields field)
  refine has_learnAll ht fun hyy => ?_
  obtain rfl : field = .year := by
    rw [← field_of_lastToken ht, hyy]
    rfl
  rw [hyy] at ht
  exact hshort ht

/-- Two names of a month side by side, a part that is not recognised, and a year of two digits. -/
theorem readDate_render_of_leap_day :
    let f := "MMMMMMM-notes-DDYY"
    let d : Date := ⟨2020, 2, 29⟩
    render f d = "FebruaryFeb--2920" ∧
      ∃ c, compile? f = some c ∧ c.readDate (render f d) = .ok d := by
  refine ⟨by decide +kernel, Compiled.ofParts "MMMMMMM-notes-DDYY", by decide +kernel, ?_⟩
  refine readDate_render (by decide +kernel) ?_ (by decide +kernel) (by decide) (by decide)
    (fun _ => by decide) (fun _ => by decide)
  intro field
  cases field <;> decide +kernel

end NoteArchive
