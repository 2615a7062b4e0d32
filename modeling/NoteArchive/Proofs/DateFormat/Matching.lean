import Mathlib.Data.List.Chain
import Mathlib.Data.List.TakeWhile
import Mathlib.Tactic.Common
import NoteArchive.Proofs.DateFormat.Rendering

/-!
# Matching the name of a date

* `captures_of_accepts`: a token of a fixed width takes that many characters.
* `captures_of_isOpen`: an open token takes as many characters as the rest can spare.
* `Token.IsApart`: two tokens whose texts can be told from each other.
* `captures_render`: in what a format writes for a date every token matches what it wrote.
-/

namespace NoteArchive

open DateFormat

/-! ## What a token takes -/

namespace Token

variable {t : Token} {a r : List Char}

theorem accepts_iff : t.accepts a = true ↔
    (∀ c ∈ a, t.admits c = true) ∧
      (if t.isOpen then t.width ≤ a.length else a.length = t.width) := by
  unfold accepts
  rw [Bool.and_eq_true, List.all_eq_true]
  cases t.isOpen <;> simp

theorem ne_nil_of_accepts (ha : t.accepts a = true) : a ≠ [] := by
  rintro rfl
  have hlength := (accepts_iff.1 ha).2
  cases t <;> simp [isOpen, width] at hlength

theorem takeWhile_admits (ha : t.accepts a = true) :
    (a ++ r).takeWhile t.admits = a ++ r.takeWhile t.admits :=
  List.takeWhile_append_of_pos (accepts_iff.1 ha).1

theorem lengths_of_accepts (hopen : t.isOpen = false) (ha : t.accepts a = true) :
    t.lengths (a ++ r) = [t.width] := by
  have hlength : a.length = t.width := by simpa [hopen] using (accepts_iff.1 ha).2
  unfold lengths
  rw [takeWhile_admits ha, hopen]
  simp [hlength]

/-- The lengths that an open token can take, where `a` is one of them. -/
theorem lengths_of_isOpen (hopen : t.isOpen = true) (ha : t.accepts a = true) :
    t.lengths (a ++ r) = (List.range' (a.length + 1) (r.takeWhile t.admits).length).reverse ++
      a.length :: (List.range' t.width (a.length - t.width)).reverse := by
  have hle : t.width ≤ a.length := by simpa [hopen] using (accepts_iff.1 ha).2
  unfold lengths
  rw [takeWhile_admits ha, hopen, List.length_append]
  generalize (r.takeWhile t.admits).length = k
  -- the lengths are those up to that of `a`, and the longer ones
  have hsplit : List.range' t.width (a.length + k - t.width + 1) =
      List.range' t.width (a.length - t.width) ++ a.length :: List.range' (a.length + 1) k := by
    have hcons : a.length :: List.range' (a.length + 1) k = List.range' a.length (k + 1) := rfl
    have hstart : a.length = t.width + (a.length - t.width) := by omega
    rw [hcons]
    conv_rhs => rw [hstart]
    rw [show t.width + (a.length - t.width) - t.width = a.length - t.width by omega,
      List.range'_append_1]
    congr 1
    omega
  simp only [if_true]
  rw [if_neg (by omega), hsplit]
  simp

end Token

namespace DateFormat

variable {t : Token} {a r : List Char} {ps : List Piece}

theorem captures_eq_none (h : (r.takeWhile t.admits).length < t.width) :
    captures (.token t :: ps) r = none := by
  unfold captures Token.lengths
  rw [if_pos h]
  rfl

/-- A token of a fixed width takes that many characters. -/
theorem captures_of_accepts (hopen : t.isOpen = false) (ha : t.accepts a = true) :
    captures (.token t :: ps) (a ++ r) = (captures ps r).map (a :: ·) := by
  have hlength : a.length = t.width := by simpa [hopen] using (Token.accepts_iff.1 ha).2
  rw [captures, Token.lengths_of_accepts hopen ha, ← hlength]
  simp

/-- An open token takes `a`, if the rest matches after it and after no longer text. -/
theorem captures_of_isOpen {xs : List (List Char)} (hopen : t.isOpen = true)
    (ha : t.accepts a = true) (hrest : captures ps r = some xs)
    (hlonger : ∀ k, 0 < k → k ≤ (r.takeWhile t.admits).length → captures ps (r.drop k) = none) :
    captures (.token t :: ps) (a ++ r) = some (a :: xs) := by
  rw [captures, Token.lengths_of_isOpen hopen ha, List.findSome?_append,
    List.findSome?_eq_none_iff.2, Option.none_or, List.findSome?_cons]
  · simp [hrest]
  · intro n hn
    rw [List.mem_reverse, List.mem_range'_1] at hn
    have hdrop : (a ++ r).drop n = r.drop (n - a.length) := by
      rw [List.drop_append, List.drop_eq_nil_of_le (by omega), List.nil_append]
    rw [hdrop, hlonger (n - a.length) (by omega) (by omega)]
    rfl

end DateFormat

/-! ## Tokens side by side -/

/-- The names of two months stand side by side only as a full one and a short one. -/
def Token.IsApart (t u : Token) : Prop :=
  t.slot = .monthName → u.slot = .monthName → t = .mmmm ∧ u = .mmm

/-- A text that does not begin with a letter. -/
def BeginsApart (s : List Char) : Prop := ∀ c ∈ s.head?, Text.isAsciiLetter c = false

theorem BeginsApart.takeWhile_eq_nil {s : List Char} (h : BeginsApart s) :
    s.takeWhile Text.isAsciiLetter = [] := by
  cases s with
  | nil => rfl
  | cons c r => exact List.takeWhile_cons_of_neg (by simp [h c rfl])

theorem BeginsApart.takeWhile_append {a s : List Char} (h : BeginsApart s)
    (ha : ∀ c ∈ a, Text.isAsciiLetter c = true) : (a ++ s).takeWhile Text.isAsciiLetter = a := by
  rw [List.takeWhile_append_of_pos ha, h.takeWhile_eq_nil, List.append_nil]

theorem not_isAsciiLetter_of_isAsciiDigit {c : Char} (h : Text.isAsciiDigit c = true) :
    Text.isAsciiLetter c = false := by
  simp only [Text.isAsciiDigit, Text.isAsciiLetter, Bool.and_eq_true, decide_eq_true_eq,
    Bool.or_eq_false_iff, Bool.and_eq_false_iff, decide_eq_false_iff_not] at h ⊢
  omega

/-- A number that a token matches begins with a digit. -/
theorem Token.beginsApart_of_accepts {t : Token} {a : List Char} (ht : t.slot ≠ .monthName)
    (ha : t.accepts a = true) (r : List Char) : BeginsApart (a ++ r) := by
  have hdigits : t.admits = Text.isAsciiDigit := by
    cases t <;> first | rfl | exact absurd rfl ht
  obtain ⟨c, a, rfl⟩ := List.exists_cons_of_ne_nil (Token.ne_nil_of_accepts ha)
  intro d hd
  cases hd
  apply not_isAsciiLetter_of_isAsciiDigit
  rw [← hdigits]
  exact (Token.accepts_iff.1 ha).1 c List.mem_cons_self

section Tokens

variable {d : Date} {r : List Char} {ts : List Token}

theorem beginsApart_render (hr : BeginsApart r) (hts : ∀ t ∈ ts.head?, t.slot ≠ .monthName)
    (haccepts : ∀ t ∈ ts, t.accepts (t.render d) = true) :
    BeginsApart (ts.flatMap (Token.render d) ++ r) := by
  cases ts with
  | nil => exact hr
  | cons t ts =>
    rw [List.flatMap_cons, List.append_assoc]
    exact t.beginsApart_of_accepts (hts t rfl) (haccepts t List.mem_cons_self) _

/-- No name of a month stands after the short name of one. -/
theorem slot_ne_of_isChain (h : (Token.mmm :: ts).IsChain Token.IsApart) :
    ∀ t ∈ ts.head?, t.slot ≠ .monthName := by
  intro t ht hname
  cases ts with
  | nil => cases ht
  | cons u us =>
    cases ht
    have hfull := ((List.isChain_cons_cons.1 h).1 rfl hname).1
    cases hfull

/-- After the full name of a month no letter can be spared. -/
theorem captures_drop_eq_none (hr : BeginsApart r)
    (hchain : (Token.mmmm :: ts).IsChain Token.IsApart)
    (haccepts : ∀ t ∈ ts, t.accepts (t.render d) = true) (rest : List Piece) {k : Nat} (hk : 0 < k)
    (hle : k ≤ ((ts.flatMap (Token.render d) ++ r).takeWhile Text.isAsciiLetter).length) :
    captures (ts.map .token ++ rest) ((ts.flatMap (Token.render d) ++ r).drop k) = none := by
  -- a short name of a month may follow, but no other letter
  by_cases hts : ∀ t ∈ ts.head?, t.slot ≠ .monthName
  · rw [(beginsApart_render hr hts haccepts).takeWhile_eq_nil] at hle
    exact absurd hk (Nat.not_lt.2 hle)
  · obtain ⟨u, us, rfl, hu⟩ : ∃ u us, ts = u :: us ∧ u.slot = .monthName := by
      cases ts with
      | nil => exact absurd (by simp) hts
      | cons u us => exact ⟨u, us, rfl, by simpa using hts⟩
    obtain ⟨hhead, htail⟩ := List.isChain_cons_cons.1 hchain
    obtain ⟨-, rfl⟩ := hhead rfl hu
    have hnext : BeginsApart (us.flatMap (Token.render d) ++ r) :=
      beginsApart_render hr (slot_ne_of_isChain htail) fun t ht =>
        haccepts t (List.mem_cons_of_mem _ ht)
    obtain ⟨hletters, hlength⟩ := Token.accepts_iff.1 (haccepts .mmm List.mem_cons_self)
    have hthree : (Token.mmm.render d).length = 3 := hlength
    rw [List.flatMap_cons, List.append_assoc] at hle ⊢
    rw [hnext.takeWhile_append hletters, hthree] at hle
    rw [List.drop_append_of_le_length (by omega)]
    -- what is left of the short name is too short for it
    apply captures_eq_none
    show (List.takeWhile Text.isAsciiLetter _).length < 3
    rw [hnext.takeWhile_append fun c hc => hletters c (List.mem_of_mem_drop hc), List.length_drop,
      hthree]
    omega

theorem captures_tokens {rest : List Piece} {xs : List (List Char)} (hr : BeginsApart r)
    (hrest : captures rest r = some xs) (hchain : ts.IsChain Token.IsApart)
    (haccepts : ∀ t ∈ ts, t.accepts (t.render d) = true) :
    captures (ts.map .token ++ rest) (ts.flatMap (Token.render d) ++ r) =
      some (ts.map (Token.render d) ++ xs) := by
  -- the induction is on the tokens; what follows them stays the same
  induction ts with
  | nil => exact hrest
  | cons t ts ih =>
    have ht := haccepts t List.mem_cons_self
    have hts : ∀ u ∈ ts, u.accepts (u.render d) = true :=
      fun u hu => haccepts u (List.mem_cons_of_mem _ hu)
    have ih := ih hchain.tail hts
    rw [List.flatMap_cons, List.append_assoc, List.map_cons, List.map_cons, List.cons_append,
      List.cons_append]
    cases hopen : t.isOpen with
    | false =>
      rw [captures_of_accepts hopen ht, ih]
      rfl
    | true =>
      obtain rfl : t = .mmmm := by cases t <;> first | rfl | cases hopen
      apply captures_of_isOpen hopen ht ih
      exact fun k hk hle => captures_drop_eq_none hr hchain hts rest hk hle

end Tokens

/-! ## Parts side by side -/

namespace DateFormat

variable {d : Date}

theorem not_isAsciiLetter_of_isSeparator {c : Char} (h : isSeparator c = true) :
    Text.isAsciiLetter c = false := by
  simp only [isSeparator, Bool.or_eq_true, decide_eq_true_eq] at h
  rcases h with rfl | rfl <;> decide

/-- What follows a segment begins with a separator, or is the end of the name. -/
theorem beginsApart_of_isChain {s : List Char} {ps : List Part}
    (hchain : (Part.segment s :: ps).IsChain fun p q =>
      ¬ (p.isSegment = true ∧ q.isSegment = true))
    (hseparators : ∀ c, Part.separator c ∈ ps → isSeparator c = true) :
    BeginsApart (ps.flatMap (Part.render d) ++ noteSuffix) := by
  cases ps with
  | nil =>
    intro c hc
    cases hc
    decide
  | cons q ps =>
    cases q with
    | separator c =>
      intro c' hc
      cases hc
      exact not_isAsciiLetter_of_isSeparator (hseparators c List.mem_cons_self)
    | segment s' => exact absurd ⟨rfl, rfl⟩ (List.isChain_cons_cons.1 hchain).1

theorem captures_parts {ps : List Part}
    (hchain : ps.IsChain fun p q => ¬ (p.isSegment = true ∧ q.isSegment = true))
    (hseparators : ∀ c, Part.separator c ∈ ps → isSeparator c = true)
    (hapart : ∀ p ∈ ps, p.tokens.IsChain Token.IsApart)
    (haccepts : ∀ p ∈ ps, ∀ t ∈ p.tokens, t.accepts (t.render d) = true) :
    captures (ps.flatMap Part.pieces) (ps.flatMap (Part.render d) ++ noteSuffix) =
      some (ps.flatMap fun p => p.tokens.map (Token.render d)) := by
  -- from the end of the name on, where only its suffix is left
  induction ps with
  | nil => exact if_pos rfl
  | cons p ps ih =>
    have hps : ∀ c, Part.separator c ∈ ps → isSeparator c = true :=
      fun c hc => hseparators c (List.mem_cons_of_mem _ hc)
    have ih := ih hchain.tail hps (fun q hq => hapart q (List.mem_cons_of_mem _ hq))
      fun q hq => haccepts q (List.mem_cons_of_mem _ hq)
    rw [List.flatMap_cons, List.flatMap_cons, List.flatMap_cons, List.append_assoc]
    cases p with
    | separator c =>
      show (if c = c then _ else none) = _
      rw [if_pos rfl]
      exact ih
    | segment s =>
      exact captures_tokens (beginsApart_of_isChain hchain hps) ih
        (hapart _ List.mem_cons_self) (haccepts _ List.mem_cons_self)

end DateFormat

/-- In what a format writes for a date every token matches what it wrote. -/
theorem Compiled.captures_render {f : String} {d : Date}
    (hapart : ∀ p ∈ parts f.toList, p.tokens.IsChain Token.IsApart)
    (haccepts : ∀ t ∈ (Compiled.ofParts f).tokens, t.accepts (t.render d) = true) :
    (Compiled.ofParts f).captures ((render f d).toList ++ noteSuffix) =
      some ((Compiled.ofParts f).tokens.map (Token.render d)) := by
  rw [Compiled.ofParts_tokens] at haccepts ⊢
  rw [render, String.toList_ofList, List.map_flatMap]
  exact captures_parts (isChain_parts _) (fun c => isSeparator_of_mem_parts) hapart
    fun p hp t ht => haccepts t (List.mem_flatMap.2 ⟨p, hp, ht⟩)

end NoteArchive
