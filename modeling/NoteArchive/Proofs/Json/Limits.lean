import Mathlib.Data.List.TakeWhile
import NoteArchive.Proofs.Json.RoundTrip

/-!
# Texts beyond the limits of the reader

The reader gives up at a limit only where a text has as much: more opening brackets than lists and
objects may lie in one another, or more digits in a row than a whole number may have.

* `Json.brackets`, `Json.HasLongNumber`: how much a text has.  `Json.Exceeds`: more than is read.
* `Json.Sound`: the rest of a step is at the end of the text, so that what is found in the rest is
  in the text too; and where a step gives up at a limit, the text has as much.
* `sound_readText`, `sound_readNumber`, `sound_values`: all steps are so.
* `exceeds_of_read`: so is the reader.
* `read_of_long`: an object at which it does give up.
-/

namespace NoteArchive.Json

variable {α β : Type} {depth : Nat} {s t r : List Char} {c : Char}

/-! ## How much a text has -/

/-- The number of opening brackets and braces. -/
def brackets (s : List Char) : Nat := s.countP fun c => c = '[' || c = '\x7b'

/-- More digits in a row than a whole number may have. -/
def HasLongNumber (s : List Char) : Prop :=
  ∃ digits, digits <:+: s ∧ digitLimit < digits.length ∧ ∀ c ∈ digits, Text.isAsciiDigit c = true

/-- More than the reader takes where lists and objects may lie `depth` deep in one another. -/
def Exceeds (depth : Nat) (s : List Char) : Prop := depth < brackets s ∨ HasLongNumber s

theorem brackets_cons (hc : c = '[' ∨ c = '\x7b') : brackets (c :: r) = brackets r + 1 :=
  List.countP_cons_of_pos (by simpa using hc)

namespace Exceeds

theorem of_suffix (h : Exceeds depth r) (hs : r <:+ s) : Exceeds depth s := by
  rcases h with h | ⟨digits, hd, hlong, hall⟩
  · exact Or.inl (Nat.lt_of_lt_of_le h hs.sublist.countP_le)
  · exact Or.inr ⟨digits, hd.trans hs.isInfix, hlong, hall⟩

theorem of_bracket (hc : c = '[' ∨ c = '\x7b') : Exceeds 0 (c :: r) := by
  refine Or.inl ?_
  rw [brackets_cons hc]
  exact Nat.succ_pos _

theorem under_bracket (h : Exceeds depth r) (hc : c = '[' ∨ c = '\x7b') :
    Exceeds (depth + 1) (c :: r) := by
  rcases h with h | ⟨digits, hd, hlong, hall⟩
  · refine Or.inl ?_
    rw [brackets_cons hc]
    exact Nat.succ_lt_succ h
  · exact Or.inr ⟨digits, hd.trans (List.suffix_cons c r).isInfix, hlong, hall⟩

end Exceeds

/-! ## One step -/

theorem skipSpaces_suffix (s : List Char) : skipSpaces s <:+ s := List.dropWhile_suffix _

/-- The rest of a step at `s` is at the end of `s`; and where the step gives up at a limit, `s` has
more than the reader takes. -/
def Sound (depth : Nat) (s : List Char) (step : Step α) : Prop :=
  match step with
  | .ok (_, rest) => rest <:+ s
  | .error (fault, _) => fault.isLimit = true → Exceeds depth s

namespace Sound

variable {step : Step α}

theorem of_suffix (h : Sound depth r step) (hs : r <:+ s) : Sound depth s step := by
  rcases step with ⟨fault, rest⟩ | ⟨a, rest⟩
  · exact fun hl => (h hl).of_suffix hs
  · exact List.IsSuffix.trans h hs

theorem under_bracket (h : Sound depth r step) (hc : c = '[' ∨ c = '\x7b') :
    Sound (depth + 1) (c :: r) step := by
  rcases step with ⟨fault, rest⟩ | ⟨a, rest⟩
  · exact fun hl => (h hl).under_bracket hc
  · exact List.IsSuffix.trans h (List.suffix_cons c r)

theorem map (h : Sound depth s step) {f : α × List Char → β × List Char}
    (hf : ∀ x, (f x).2 = x.2) : Sound depth s (step.map f) := by
  rcases step with ⟨fault, rest⟩ | x
  · exact h
  · change (f x).2 <:+ s
    rw [hf]
    exact h

theorem push {step : Step Text.Wide} (h : Sound depth s step) (p : Text.Point) :
    Sound depth s (Step.push p step) := h.map fun _ => rfl

/-- What comes after spaces. -/
theorem spaces {fault : Fault} {next : Char → List Char → Step α} (hfault : fault.isLimit = false)
    (hnext : ∀ c t, Sound depth (c :: t) (next c t)) :
    Sound depth s (match skipSpaces s with
      | [] => .error (fault, [])
      | c :: t => next c t) := by
  have hspaces := skipSpaces_suffix s
  split
  · intro hl
    rw [hfault] at hl
    cases hl
  · next c t ht => exact (hnext c t).of_suffix (ht ▸ hspaces)

end Sound

/-! ## Texts -/

theorem suffix_of_secondHalf {n : Nat} (h : secondHalf s = .code n r) : r <:+ s := by
  unfold secondHalf at h
  split at h
  · split at h
    · split at h
      · cases h
      · cases h
        exact ⟨[_, _, _, _, _], rfl⟩
    · cases h
  · cases h

theorem sound_readText (depth : Nat) (opening s : List Char) :
    Sound depth s (readText opening s) := by
  fun_induction readText opening s
  case case2 => exact List.suffix_cons _ _
  -- a code of six characters, with the second half of a character behind it or not
  case case5 ih => exact (ih.push _).of_suffix ⟨[_, _, _, _, _, _], rfl⟩
  case case8 ih => exact (ih.push _).of_suffix ⟨[_, _, _, _, _, _], rfl⟩
  case case9 ih => exact (ih.push _).of_suffix ⟨[_, _, _, _, _, _], rfl⟩
  case case7 hhalf _ _ _ ih =>
    exact ((ih.push _).of_suffix (suffix_of_secondHalf hhalf)).of_suffix
      ⟨[_, _, _, _, _, _, _], rfl⟩
  case case11 ih => exact (ih.push _).of_suffix ⟨[_, _], rfl⟩
  case case14 ih => exact (ih.push _).of_suffix (List.suffix_cons _ _)
  -- all else is malformed, and no limit
  all_goals exact Bool.noConfusion

/-! ## Numbers -/

theorem wholePart_append (s : List Char) : (wholePart s).1 ++ (wholePart s).2 = s := by
  unfold wholePart
  split
  · rfl
  · split
    · rfl
    · exact List.takeWhile_append_dropWhile

theorem isAsciiDigit_of_mem_wholePart (h : c ∈ (wholePart s).1) : Text.isAsciiDigit c = true := by
  unfold wholePart at h
  split at h
  · cases h
  · split at h
    · next hc =>
      rw [List.mem_singleton.1 h, hc]
      rfl
    · exact List.mem_takeWhile_imp h

theorem fractionPart_suffix (s : List Char) : (fractionPart s).2 <:+ s := by
  unfold fractionPart
  split
  · exact List.suffix_refl _
  · split
    · split
      · exact List.suffix_refl _
      · exact (List.dropWhile_suffix _).trans (List.suffix_cons _ _)
    · exact List.suffix_refl _

theorem suffix_of_digitsAhead {digits : List Char} (h : digitsAhead s = (digits, r)) : r <:+ s := by
  cases h
  exact List.dropWhile_suffix _

theorem exponentPart_suffix (s : List Char) : (exponentPart s).2 <:+ s := by
  unfold exponentPart
  split
  · exact List.suffix_refl _
  · next c r =>
    split
    · dsimp only
      split
      · exact List.suffix_refl _
      · next hdigits =>
        refine (suffix_of_digitsAhead hdigits).trans ?_
        -- what is left to read after the letter begins behind a sign, if there is one
        rcases r with _ | ⟨sign, t⟩
        · exact List.nil_suffix
        · dsimp only
          split
          · exact ⟨[_, _], rfl⟩
          · split
            · exact ⟨[_, _], rfl⟩
            · exact List.suffix_cons _ _
    · exact List.suffix_refl _

theorem sound_readNumber (all : List Char) (negative : Bool) (s : List Char) :
    Sound depth s (readNumber all negative s) := by
  have happend := wholePart_append s
  have hdigits := fun c => isAsciiDigit_of_mem_wholePart (c := c) (s := s)
  unfold readNumber
  rcases hwhole : wholePart s with ⟨whole, r⟩
  simp only [hwhole] at happend hdigits ⊢
  have hfraction := fractionPart_suffix r
  rcases hr : fractionPart r with ⟨fraction, r₁⟩
  simp only [hr] at hfraction ⊢
  have hexponent := exponentPart_suffix r₁
  rcases hr₁ : exponentPart r₁ with ⟨exponent, rest⟩
  simp only [hr₁] at hexponent ⊢
  have hrest : rest <:+ s := (hexponent.trans hfraction).trans ⟨whole, happend⟩
  split
  · exact Bool.noConfusion
  · split
    · split
      · next hlong =>
        exact fun _ => Or.inr ⟨whole, List.IsPrefix.isInfix ⟨r, happend⟩, hlong, hdigits⟩
      · exact hrest
    · exact hrest

/-! ## Values -/

theorem suffix_of_readNamed {value : Json} (h : readNamed s = some (value, r)) : r <:+ s := by
  obtain ⟨⟨word, value'⟩, -, hword⟩ := List.exists_of_findSome?_eq_some h
  rw [Option.map_eq_some_iff] at hword
  obtain ⟨rest, hafter, heq⟩ := hword
  cases heq
  unfold afterWord at hafter
  split at hafter
  · cases hafter
    exact List.drop_suffix _ _
  · cases hafter

section Values

variable {fuel : Nat} (hvalue : ∀ depth s, Sound depth s (readValue depth fuel s))
  (hitems : ∀ depth s, Sound depth s (readItems depth fuel s))
  (hfields : ∀ depth before s, Sound depth s (readFields depth fuel before s))

include hitems hfields in
theorem sound_readValue_succ (depth : Nat) (s : List Char) :
    Sound depth s (readValue depth (fuel + 1) s) := by
  rcases s with _ | ⟨c, r⟩
  · unfold readValue
    exact Bool.noConfusion
  unfold readValue
  split
  · exact Sound.of_suffix (Sound.map (sound_readText _ _ r) fun _ => rfl) (List.suffix_cons _ _)
  split
  · next hc =>
    rcases depth with _ | depth
    · exact fun _ => Exceeds.of_bracket (Or.inr hc)
    · refine Sound.under_bracket (Sound.spaces rfl fun d t => ?_) (Or.inr hc)
      split
      · exact List.suffix_cons d t
      · exact (hfields depth [] _).map fun _ => rfl
  split
  · next hc =>
    rcases depth with _ | depth
    · exact fun _ => Exceeds.of_bracket (Or.inl hc)
    · refine Sound.under_bracket (Sound.spaces rfl fun d t => ?_) (Or.inl hc)
      split
      · exact List.suffix_cons d t
      · exact (hitems depth _).map fun _ => rfl
  split
  · next found hfound => exact suffix_of_readNamed hfound
  · split
    · exact (sound_readNumber _ _ r).of_suffix (List.suffix_cons _ _)
    · exact sound_readNumber _ _ _

include hvalue hitems in
theorem sound_readItems_succ (depth : Nat) (s : List Char) :
    Sound depth s (readItems depth (fuel + 1) s) := by
  have hitem := hvalue depth s
  unfold readItems
  split
  · next e he =>
    rw [he] at hitem
    exact hitem
  · next item r he =>
    rw [he] at hitem
    refine Sound.of_suffix ?_ hitem
    refine Sound.spaces rfl fun c t => ?_
    split
    · exact List.suffix_cons c t
    · split
      · exact Sound.of_suffix (Sound.map (hitems depth _) fun _ => rfl)
          ((skipSpaces_suffix t).trans (List.suffix_cons c t))
      · exact Bool.noConfusion

include hvalue hfields in
theorem sound_readFields_succ (depth : Nat) (before : List (Text.Wide × Json)) (s : List Char) :
    Sound depth s (readFields depth (fuel + 1) before s) := by
  rcases s with _ | ⟨q, r⟩
  · unfold readFields
    exact Bool.noConfusion
  have hname := sound_readText depth (q :: r) r
  unfold readFields
  split
  · refine Sound.of_suffix ?_ (List.suffix_cons q r)
    -- a name, a colon, a value, and what follows: each begins in what the one before left
    split
    · next e he =>
      rw [he] at hname
      exact hname
    · next name r₁ he =>
      rw [he] at hname
      refine Sound.of_suffix ?_ hname
      refine Sound.spaces rfl fun colon t => ?_
      split
      · have hfield := hvalue depth (skipSpaces t)
        refine Sound.of_suffix ?_ ((skipSpaces_suffix t).trans (List.suffix_cons colon t))
        split
        · next e he =>
          rw [he] at hfield
          exact hfield
        · next value r₂ he =>
          rw [he] at hfield
          refine Sound.of_suffix ?_ hfield
          refine Sound.spaces rfl fun c t₂ => ?_
          split
          · exact List.suffix_cons c t₂
          · split
            · exact (hfields depth _ _).of_suffix
                ((skipSpaces_suffix t₂).trans (List.suffix_cons c t₂))
            · exact Bool.noConfusion
      · exact Bool.noConfusion
  · exact Bool.noConfusion

/-- By induction on the fuel: each step goes on with less. -/
theorem sound_values (fuel : Nat) :
    (∀ depth s, Sound depth s (readValue depth fuel s)) ∧
      (∀ depth s, Sound depth s (readItems depth fuel s)) ∧
      ∀ depth before s, Sound depth s (readFields depth fuel before s) := by
  induction fuel with
  | zero =>
    refine ⟨fun depth s => ?_, fun depth s => ?_, fun depth before s => ?_⟩
    · unfold readValue
      exact Bool.noConfusion
    · unfold readItems
      exact Bool.noConfusion
    · unfold readFields
      exact Bool.noConfusion
  | succ fuel ih =>
    obtain ⟨hvalue, hitems, hfields⟩ := ih
    exact ⟨sound_readValue_succ hitems hfields, sound_readItems_succ hvalue hitems,
      sound_readFields_succ hvalue hfields⟩

end Values

/-- The reader gives up at a limit only where the text has more than it takes. -/
theorem exceeds_of_read {limit : Nat} {e : ReadError} (h : read s limit = .error e)
    (hl : e.fault.isLimit = true) : Exceeds limit s := by
  rw [read.eq_def] at h
  split at h
  · cases h
    cases hl
  · split at h
    · cases h
      cases hl
    · next c r _ =>
      have hvalue := (sound_values (2 * (c :: r).length + 2)).1 limit (skipSpaces (c :: r))
      split at h
      · next fault rest he =>
        cases h
        rw [he] at hvalue
        exact (hvalue hl).of_suffix (skipSpaces_suffix _)
      · split at h
        · cases h
        · cases h
          cases hl

/-! ## Numbers that are too long -/

/-- A whole number of too many digits, at the end of an object. -/
theorem readNumber_of_long {digits : List Char} (all r : List Char) (negative : Bool)
    (hc : c ≠ '0') (hdigits : ∀ x ∈ c :: digits, Text.isAsciiDigit x = true)
    (hlong : digitLimit < (c :: digits).length) :
    readNumber all negative (c :: digits ++ '\x7d' :: r) =
      .error (.tooManyDigits (c :: digits).length, all) := by
  have hahead : digitsAhead (c :: digits ++ '\x7d' :: r) = (c :: digits, '\x7d' :: r) := by
    rw [digitsAhead, List.takeWhile_append_of_pos hdigits, List.dropWhile_append_of_pos hdigits]
    exact Prod.ext (List.append_nil _) rfl
  have hwhole : wholePart (c :: digits ++ '\x7d' :: r) = (c :: digits, '\x7d' :: r) :=
    (if_neg hc).trans hahead
  rw [readNumber, hwhole]
  exact if_pos hlong

/-- An object whose only field begins with a one fails as its number does. -/
theorem readValue_object_one {limit fuel : Nat} {e : Fault × List Char}
    (h : readNumber ('1' :: r) false ('1' :: r) = .error e) :
    readValue (limit + 1) (fuel + 3) ("\x7b\"\":1".toList ++ r) = .error e := by
  have hvalue : readValue limit (fuel + 1) (skipSpaces ('1' :: r)) = .error e := h
  have hcolon : skipSpaces (':' :: '1' :: r) = ':' :: '1' :: r := rfl
  have hfields : readFields limit (fuel + 2) [] ('"' :: '"' :: ':' :: '1' :: r) = .error e := by
    rw [readFields.eq_def]
    dsimp only
    rw [if_pos rfl, readText_quote]
    dsimp only
    rw [hcolon]
    dsimp only
    rw [if_pos rfl, hvalue]
  have hobject : readValue (limit + 1) (fuel + 3) ("\x7b\"\":1".toList ++ r) =
      (readFields limit (fuel + 2) [] ('"' :: '"' :: ':' :: '1' :: r)).map
        fun found => (.object found.1, found.2) := rfl
  rw [hobject, hfields]
  rfl

/-- An object that has a whole number of too many digits is not read. -/
theorem read_of_long {n : Nat} (hn : digitLimit ≤ n) (limit : Nat) :
    ∃ e, read ("\x7b\"\":1".toList ++ (List.replicate n '1' ++ ['\x7d'])) (limit + 1) =
      .error e ∧ e.fault.isLimit = true := by
  have hdigits : ∀ x ∈ '1' :: List.replicate n '1', Text.isAsciiDigit x = true := by
    intro x hx
    rcases List.mem_cons.1 hx with rfl | hx
    · rfl
    · rw [List.eq_of_mem_replicate hx]
      rfl
  have hlong : digitLimit < ('1' :: List.replicate n '1').length := by
    rw [List.length_cons, List.length_replicate]
    omega
  have hnumber := readNumber_of_long ('1' :: (List.replicate n '1' ++ ['\x7d'])) [] false
    (by decide) hdigits hlong
  generalize hs : "\x7b\"\":1".toList ++ (List.replicate n '1' ++ ['\x7d']) = s
  obtain ⟨fuel, hfuel⟩ : ∃ fuel, 2 * s.length + 2 = fuel + 3 :=
    ⟨2 * s.length - 1, by rw [← hs]; simp; omega⟩
  obtain ⟨e, hvalue, he⟩ : ∃ e, readValue (limit + 1) (2 * s.length + 2) (skipSpaces s) = .error e ∧
      e.1.isLimit = true := by
    rw [hfuel, ← hs]
    exact ⟨_, readValue_object_one hnumber, rfl⟩
  refine ⟨.at s e.1 e.2, ?_, he⟩
  obtain ⟨r, rfl⟩ : ∃ r, s = '\x7b' :: r := ⟨_, hs.symm⟩
  rw [read, if_neg (by decide), hvalue]

end NoteArchive.Json
