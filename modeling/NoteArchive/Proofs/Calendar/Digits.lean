import Mathlib.Data.List.Induction
import Mathlib.Data.List.TakeWhile
import Mathlib.Data.String.Basic
import Mathlib.Tactic.Common
import NoteArchive.Calendar.Date
import NoteArchive.Note
import NoteArchive.Proofs.Disk.Tree

/-!
# Numbers in digits

* `Date.digitsNumber_padded`: a number that is written with zeros in front is read back.
* `Date.padded_digitsNumber`: a row of digits is what its number is written as.
* `Date.length_padded`: with how many digits it is written.
* `isName_of_digits`: digits can be the name of a folder.  It has no extension.
-/

namespace NoteArchive

namespace Text

theorem isAsciiDigit_eq_isDigit (c : Char) : isAsciiDigit c = c.isDigit := by
  rw [Bool.eq_iff_iff]
  simp only [isAsciiDigit, Char.isDigit, Bool.and_eq_true, decide_eq_true_eq, Char.toNat,
    UInt32.le_iff_toNat_le, ge_iff_le]
  rfl

/-- An ASCII digit is the first entry of the table and has its usual value. -/
theorem digitValue?_of_isDigit {c : Char} (h : c.isDigit = true) :
    digitValue? c = some (c.toNat - '0'.toNat) := by
  rw [← isAsciiDigit_eq_isDigit, isAsciiDigit, Bool.and_eq_true, decide_eq_true_eq,
    decide_eq_true_eq] at h
  have hz : digitZeros = '0'.toNat :: digitZeros.tail := rfl
  rw [digitValue?, hz, List.find?_cons_of_pos]
  · rfl
  · simp only [Bool.and_eq_true, decide_eq_true_eq]
    exact ⟨h.1, Nat.lt_of_le_of_lt h.2 (by decide)⟩

theorem digitsNumber_eq_ofDigitChars {s : List Char} (h : ∀ c ∈ s, c.isDigit = true) :
    digitsNumber s = Nat.ofDigitChars 10 s 0 := by
  have hfold : ∀ init, s.foldl (fun n c => 10 * n + (digitValue? c).getD 0) init =
      Nat.ofDigitChars 10 s init := by
    induction s with
    | nil => simp
    | cons c r ih =>
      intro init
      rw [List.foldl_cons, Nat.ofDigitChars_cons, digitValue?_of_isDigit (h c List.mem_cons_self),
        Option.getD_some]
      exact ih (fun c hc => h c (List.mem_cons_of_mem _ hc)) _
  exact hfold 0

theorem digitsNumber_concat {s : List Char} {c : Char} (hc : c.isDigit = true) :
    digitsNumber (s ++ [c]) = 10 * digitsNumber s + (c.toNat - '0'.toNat) := by
  unfold digitsNumber
  rw [List.foldl_append, List.foldl_cons, List.foldl_nil, digitValue?_of_isDigit hc,
    Option.getD_some]

theorem toNat_of_isDigit {c : Char} (h : c.isDigit = true) :
    '0'.toNat ≤ c.toNat ∧ c.toNat < '0'.toNat + 10 := by
  rw [← isAsciiDigit_eq_isDigit, isAsciiDigit, Bool.and_eq_true, decide_eq_true_eq,
    decide_eq_true_eq] at h
  exact ⟨h.1, Nat.lt_of_le_of_lt h.2 (by decide)⟩

theorem digitsNumber_lt {s : List Char} (h : ∀ c ∈ s, c.isDigit = true) :
    digitsNumber s < 10 ^ s.length := by
  induction s using List.reverseRecOn with
  | nil => decide
  | append_singleton s c ih =>
    have hc := h c (by simp)
    have hs := ih fun c hc => h c (List.mem_append_left _ hc)
    have hvalue := toNat_of_isDigit hc
    rw [digitsNumber_concat hc, List.length_append, List.length_singleton, Nat.pow_succ]
    omega

/-- Rows of as many digits that write the same number are the same. -/
theorem eq_of_digitsNumber_eq {s t : List Char} (hs : ∀ c ∈ s, c.isDigit = true)
    (ht : ∀ c ∈ t, c.isDigit = true) (hlength : s.length = t.length)
    (h : digitsNumber s = digitsNumber t) : s = t := by
  induction s using List.reverseRecOn generalizing t with
  | nil => exact (List.length_eq_zero_iff.1 hlength.symm).symm
  | append_singleton s c ih =>
    obtain ⟨t, e, rfl⟩ : ∃ t' e, t = t' ++ [e] := by
      refine (List.eq_nil_or_concat' t).resolve_left ?_
      rintro rfl
      simp at hlength
    have hc := toNat_of_isDigit (hs c (by simp))
    have he := toNat_of_isDigit (ht e (by simp))
    rw [digitsNumber_concat (hs c (by simp)), digitsNumber_concat (ht e (by simp))] at h
    -- the last digit is the remainder by ten, and the digits before it the quotient
    obtain rfl : c = e := Char.toNat_inj.1 (by omega)
    have hlength' : s.length = t.length := by simpa using hlength
    rw [ih (fun c hc => hs c (List.mem_append_left _ hc))
      (fun c hc => ht c (List.mem_append_left _ hc)) hlength' (by omega)]

end Text

namespace Date

theorem isDigit_of_mem_padded {width n : Nat} {c : Char} (h : c ∈ padded width n) :
    c.isDigit = true := by
  rcases List.mem_append.1 h with hz | hd
  · rw [(List.mem_replicate.1 hz).2]
    decide
  · exact Nat.isDigit_of_mem_toDigits (by decide) (by decide) hd

theorem padded_ne_nil (width n : Nat) : padded width n ≠ [] := by
  simp [padded, Nat.toDigits_ne_nil]

/-- A number that is not too large is written with as many digits as asked for. -/
theorem length_padded {width n : Nat} (hw : 0 < width) (hn : n < 10 ^ width) :
    (padded width n).length = width := by
  have hle : (Nat.toDigits 10 n).length ≤ width :=
    (Nat.length_toDigits_le_iff (by decide) hw).2 hn
  simp only [padded, List.length_append, List.length_replicate]
  omega

theorem ofDigitChars_replicate_zero (k : Nat) (s : List Char) :
    Nat.ofDigitChars 10 (List.replicate k '0' ++ s) 0 = Nat.ofDigitChars 10 s 0 := by
  induction k with
  | zero => rfl
  | succ k ih =>
    rw [List.replicate_succ, List.cons_append, Nat.ofDigitChars_cons]
    exact ih

/-- A number that is written with zeros in front is read back. -/
theorem digitsNumber_padded (width n : Nat) : Text.digitsNumber (padded width n) = n := by
  rw [Text.digitsNumber_eq_ofDigitChars fun c hc => isDigit_of_mem_padded hc, padded,
    ofDigitChars_replicate_zero, Nat.ofDigitChars_ten_toDigits]

/-- The number that a row of digits writes is written back as this row. -/
theorem padded_digitsNumber {s : List Char} (h : ∀ c ∈ s, c.isDigit = true) (hne : s ≠ []) :
    padded s.length (Text.digitsNumber s) = s :=
  Text.eq_of_digitsNumber_eq (fun _ hc => isDigit_of_mem_padded hc) h
    (length_padded (List.length_pos_iff.2 hne) (Text.digitsNumber_lt h))
    (digitsNumber_padded s.length _)

end Date

/-! ## Names -/

theorem utf8Size_of_isDigit {c : Char} (h : c.isDigit = true) : c.utf8Size = 1 := by
  rw [← Text.isAsciiDigit_eq_isDigit, Text.isAsciiDigit, Bool.and_eq_true,
    decide_eq_true_eq, decide_eq_true_eq] at h
  rw [Char.utf8Size_eq_one_iff, UInt32.le_iff_toNat_le]
  exact Nat.le_trans h.2 (by decide)

theorem utf8ByteSize_of_utf8Size {s : List Char} (h : ∀ c ∈ s, c.utf8Size = 1) :
    (String.ofList s).utf8ByteSize = s.length := by
  rw [String.utf8ByteSize_ofList]
  induction s with
  | nil => rfl
  | cons c r ih =>
    rw [String.utf8Len_cons, ih fun c hc => h c (List.mem_cons_of_mem _ hc),
      h c List.mem_cons_self, List.length_cons]

theorem utf8ByteSize_of_digits {s : List Char} (h : ∀ c ∈ s, c.isDigit = true) :
    (String.ofList s).utf8ByteSize = s.length :=
  utf8ByteSize_of_utf8Size fun c hc => utf8Size_of_isDigit (h c hc)

/-- A text of digits is no text with another character. -/
theorem ofList_ne_of_digits {s : List Char} (h : ∀ c ∈ s, c.isDigit = true) {t : String}
    (ht : ∃ c ∈ t.toList, c.isDigit = false) : String.ofList s ≠ t := by
  rintro rfl
  obtain ⟨c, hc, hd⟩ := ht
  rw [String.toList_ofList] at hc
  rw [h c hc] at hd
  cases hd

/-- Digits can be the name of a folder. -/
theorem isName_of_digits {s : List Char} (hne : s ≠ []) (hs : s.length ≤ 255)
    (h : ∀ c ∈ s, c.isDigit = true) : IsName (String.ofList s) := by
  constructor
  · intro he
    exact hne (by simpa using congrArg String.toList he)
  · exact ofList_ne_of_digits h ⟨'.', by decide, rfl⟩
  · exact ofList_ne_of_digits h ⟨'.', by decide, rfl⟩
  · rw [String.toList_ofList]
    intro hm
    exact absurd (h _ hm) (by decide)
  · rw [String.toList_ofList]
    intro hm
    exact absurd (h _ hm) (by decide)
  · rw [Disk.isTooLong, utf8ByteSize_of_digits h]
    simpa using hs

/-- A name without a point has no extension. -/
theorem extensionOf_of_not_mem {name : String} (h : '.' ∉ name.toList) :
    extensionOf name = "" := by
  have htake : name.toList.reverse.takeWhile (· ≠ '.') = name.toList.reverse := by
    rw [List.takeWhile_eq_self_iff]
    exact fun c hc => decide_eq_true (ne_of_mem_of_not_mem (List.mem_reverse.1 hc) h)
  simp only [extensionOf, htake, List.reverse_reverse]
  rw [if_neg (by omega)]

/-- Digits have no extension. -/
theorem extensionOf_of_digits {s : List Char} (h : ∀ c ∈ s, c.isDigit = true) :
    extensionOf (String.ofList s) = "" := by
  apply extensionOf_of_not_mem
  rw [String.toList_ofList]
  exact fun hc => absurd (h _ hc) (by decide)

end NoteArchive
