import Mathlib.Tactic.Common
import NoteArchive.DateFormat.Reading
import NoteArchive.Proofs.Calendar.Digits
import NoteArchive.Proofs.DateFormat.Tokens

/-!
# The name of a date

* `Token.render`, `DateFormat.render`: what a token, and a whole format, write for a date.
  Numbers have zeros in front, months their English names; unrecognised parts are not written.
* `accepts_render`: a token matches what it writes, except the full name of May.
* `readSlot_render`: what a token writes is read as the field of the date.
-/

namespace NoteArchive

/-! ## Writing a date -/

/-- The English names of the months, in order. -/
def monthTitles : List String :=
  ["January", "February", "March", "April", "May", "June", "July", "August", "September", "October",
   "November", "December"]

/-- The English name of a month, of which the first one has the number 1. -/
def monthTitle (month : Nat) : List Char := (monthTitles.getD (month - 1) "").toList

/-- What a token writes for a date. -/
def Token.render (d : Date) : Token → List Char
  | .dd => Date.padded 2 d.day
  | .mm => Date.padded 2 d.month
  | .mmm => (monthTitle d.month).take 3
  | .mmmm => monthTitle d.month
  | .yyyy => Date.padded 4 d.year
  | .yy => Date.padded 2 (d.year % 100)

namespace DateFormat

/-- What a part writes for a date: a separator itself, the tokens one after the other, and nothing
if it is unrecognised. -/
def Part.render (d : Date) : Part → List Char
  | .separator c => [c]
  | .segment s => (Part.segment s).tokens.flatMap (Token.render d)

/-- What a format writes for a date. -/
def render (format : String) (d : Date) : String :=
  String.ofList ((parts format.toList).flatMap (Part.render d))

end DateFormat

/-! ## What is written can be matched -/

section Months

variable {m : Nat} (hfirst : 1 ≤ m) (hlast : m ≤ 12)

include hfirst hlast

theorem isAsciiLetter_monthTitle : (monthTitle m).all Text.isAsciiLetter = true := by
  have h : ∀ n < 13, 1 ≤ n → (monthTitle n).all Text.isAsciiLetter = true := by decide +kernel
  exact h m (by omega) hfirst

theorem length_monthTitle : 3 ≤ (monthTitle m).length ∧ (m ≠ 5 → 4 ≤ (monthTitle m).length) := by
  have h : ∀ n < 13, 1 ≤ n → 3 ≤ (monthTitle n).length ∧ (n ≠ 5 → 4 ≤ (monthTitle n).length) := by
    decide +kernel
  exact h m (by omega) hfirst

/-- The short and the full name of a month are read as its number. -/
theorem monthOfName?_monthTitle :
    monthOfName? (monthTitle m) = some m ∧ monthOfName? ((monthTitle m).take 3) = some m := by
  have h : ∀ n < 13, 1 ≤ n →
      monthOfName? (monthTitle n) = some n ∧ monthOfName? ((monthTitle n).take 3) = some n := by
    decide +kernel
  exact h m (by omega) hfirst

end Months

namespace Date

variable {d : Date}

theorem all_isAsciiDigit_padded (width n : Nat) :
    (padded width n).all Text.isAsciiDigit = true := by
  rw [List.all_eq_true]
  intro c hc
  rw [Text.isAsciiDigit_eq_isDigit]
  exact isDigit_of_mem_padded hc

theorem IsReal.day_le (hd : d.IsReal) : d.day ≤ 31 := by
  obtain ⟨-, -, -, -, -, hday⟩ := hd
  refine hday.trans ?_
  unfold daysIn
  split
  · split <;> omega
  · split <;> omega

end Date

namespace Token

variable {d : Date}

/-- A token of digits matches every number that is not too large for it. -/
theorem accepts_padded {t : Token} (hdigits : t.admits = Text.isAsciiDigit)
    (hopen : t.isOpen = false) (hwidth : 0 < t.width) {n : Nat} (hn : n < 10 ^ t.width) :
    t.accepts (Date.padded t.width n) = true := by
  unfold accepts
  rw [hdigits, Date.all_isAsciiDigit_padded, hopen, Date.length_padded hwidth hn]
  simp

/-- A token matches what it writes for a date, but the full name of May is too short. -/
theorem accepts_render (hd : d.IsReal) {t : Token} (hmay : t = .mmmm → d.month ≠ 5) :
    t.accepts (t.render d) = true := by
  obtain ⟨-, hyear, hmonth, hmonth', -, -⟩ := id hd
  have hday := hd.day_le
  have hletters := isAsciiLetter_monthTitle hmonth hmonth'
  have hlength := length_monthTitle hmonth hmonth'
  -- numbers are below the power of ten that their width allows, names are looked up
  cases t with
  | dd =>
    have hlt : d.day < 10 ^ dd.width := by show d.day < 10 ^ 2; omega
    exact accepts_padded rfl rfl (by decide) hlt
  | mm =>
    have hlt : d.month < 10 ^ mm.width := by show d.month < 10 ^ 2; omega
    exact accepts_padded rfl rfl (by decide) hlt
  | yyyy =>
    have hlt : d.year < 10 ^ yyyy.width := by show d.year < 10 ^ 4; omega
    exact accepts_padded rfl rfl (by decide) hlt
  | yy =>
    have hlt : d.year % 100 < 10 ^ yy.width := by show d.year % 100 < 10 ^ 2; omega
    exact accepts_padded rfl rfl (by decide) hlt
  | mmm =>
    have htake : ((monthTitle d.month).take 3).all Text.isAsciiLetter = true := by
      rw [List.all_eq_true] at hletters ⊢
      exact fun c hc => hletters c (List.mem_of_mem_take hc)
    unfold accepts
    rw [Bool.and_eq_true]
    exact ⟨htake, by simpa [isOpen, render, width] using hlength.1⟩
  | mmmm =>
    unfold accepts
    rw [Bool.and_eq_true]
    exact ⟨hletters, decide_eq_true (hlength.2 (hmay rfl))⟩

end Token

/-! ## What is written can be read -/

theorem readNumber_padded (width n : Nat) : readNumber (Date.padded width n) = .ok n := by
  have hdigits : (Date.padded width n).all Text.isDigit = true := by
    rw [List.all_eq_true]
    intro c hc
    simp [Text.isDigit, Text.digitValue?_of_isDigit (Date.isDigit_of_mem_padded hc)]
  rw [readNumber, if_pos ⟨Date.padded_ne_nil _ _, hdigits⟩, Date.digitsNumber_padded]

theorem readNumber_padded_bind {α : Type} (width n : Nat) (f : Nat → Except Misread α) :
    (readNumber (Date.padded width n) >>= f) = f n := by
  rw [readNumber_padded]
  rfl

theorem readYear_eq_ok {y : Int} (h : 1000 ≤ y) (h' : y ≤ 9999) (known : PartialDate) :
    readYear y known = .ok { known with year := some y } := by
  unfold readYear firstYear lastYear
  rw [if_neg (by omega)]

theorem resolveShortYear_bounds {n : Nat} (h : n < 100) :
    1950 ≤ resolveShortYear n ∧ resolveShortYear n ≤ 2049 := by
  unfold resolveShortYear
  split <;> omega

/-- A year from 1950 to 2049 is found again from its last two digits. -/
theorem resolveShortYear_mod {y : Nat} (h : 1950 ≤ y) (h' : y ≤ 2049) :
    resolveShortYear (y % 100 : Nat) = y := by
  unfold resolveShortYear
  split <;> omega

/-- What is known of a date after a token has been read in its name. -/
def PartialDate.learn (known : PartialDate) (d : Date) : Token → PartialDate
  | .dd => { known with day := some d.day }
  | .mm | .mmm | .mmmm => { known with month := some d.month }
  | .yyyy => { known with year := some d.year }
  | .yy => { known with year := some (resolveShortYear (d.year % 100 : Nat)) }

theorem readSlot_render {d : Date} (hd : d.IsReal) (hyear : 1000 ≤ d.year) (known : PartialDate)
    (t : Token) : readSlot known t.slot (t.render d) = .ok (known.learn d t) := by
  obtain ⟨-, hyear', hmonth, hmonth', hday, -⟩ := id hd
  have hday' := hd.day_le
  have hname := monthOfName?_monthTitle hmonth hmonth'
  cases t with
  | dd =>
    simp only [Token.slot, Token.render, readSlot, readNumber_padded_bind]
    rw [if_neg (by omega)]
    rfl
  | mm =>
    simp only [Token.slot, Token.render, readSlot, readNumber_padded_bind]
    rw [if_neg (by omega)]
    rfl
  | mmm =>
    simp only [Token.slot, Token.render, readSlot, hname.2]
    rfl
  | mmmm =>
    simp only [Token.slot, Token.render, readSlot, hname.1]
    rfl
  | yyyy =>
    simp only [Token.slot, Token.render, readSlot, readNumber_padded_bind]
    rw [readYear_eq_ok (by omega) (by omega)]
    rfl
  | yy =>
    have hbounds := resolveShortYear_bounds (Nat.mod_lt d.year (by decide : 0 < 100))
    simp only [Token.slot, Token.render, readSlot, readNumber_padded_bind]
    rw [readYear_eq_ok (by omega) (by omega)]
    rfl

end NoteArchive
