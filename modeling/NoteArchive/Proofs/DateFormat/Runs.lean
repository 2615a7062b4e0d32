import Mathlib.Data.List.SplitBy
import Mathlib.Data.List.TakeWhile
import Mathlib.Tactic.Common
import NoteArchive.DateFormat.Token
import NoteArchive.Proofs.Text.Trim

/-!
# The runs of equal letters in a format

A text is cut into tokens from left to right, the longest token first, and where the rest cannot be
cut a shorter one is tried.  But no token goes beyond a run of equal letters, so a run is cut
whatever follows it, and its tokens are told from its length.

* `runTokens`: the tokens of a run.
* `tokensOf_replicate_append`: the tokens that are tried at the front of a run.
* `tokensOf_days`, `tokensOf_years`, `tokensOf_months`: a run in front of another text, letter by
  letter.
* `tokensOf_eq_some_iff_runs`: run by run.

At the end this is said of the text of a part, which is not empty.
-/

namespace NoteArchive

/-- The runs of a text: the rows of equal characters, each as long as it can be. -/
def Text.runs (s : List Char) : List (List Char) := s.splitBy (· == ·)

/-! ## The tokens of a run -/

/-- The tokens of `n` letters `D`. -/
def dayTokens (n : Nat) : List Token := List.replicate (n / 2) .dd

/-- The tokens of `n` letters `Y`. -/
def yearTokens (n : Nat) : List Token :=
  List.replicate (n / 4) .yyyy ++ if n % 4 = 2 then [.yy] else []

/-- The tokens of `n` letters `M`.  Where one letter would be left over, the last five are cut as
three and two. -/
def monthTokens (n : Nat) : List Token :=
  if n % 4 = 1 then List.replicate ((n - 5) / 4) .mmmm ++ [.mmm, .mm]
  else List.replicate (n / 4) .mmmm ++
    if n % 4 = 2 then [.mm] else if n % 4 = 3 then [.mmm] else []

theorem dayTokens_add (n : Nat) : dayTokens (n + 2) = .dd :: dayTokens n := by
  simp [dayTokens, List.replicate_succ]

theorem yearTokens_add (n : Nat) : yearTokens (n + 4) = .yyyy :: yearTokens n := by
  simp [yearTokens, List.replicate_succ]

theorem monthTokens_add {n : Nat} (hn : n ≠ 1) : monthTokens (n + 4) = .mmmm :: monthTokens n := by
  unfold monthTokens
  by_cases hmod : n % 4 = 1
  · have hsub : (n + 4 - 5) / 4 = (n - 5) / 4 + 1 := by omega
    rw [if_pos (by omega), if_pos hmod, hsub, List.replicate_succ, List.cons_append]
  · simp [hmod, List.replicate_succ]

/-- The tokens of a run of equal letters. -/
def runTokens (run : List Char) : List Token :=
  if 'D' ∈ run then dayTokens run.length
  else if 'Y' ∈ run then yearTokens run.length
  else if 'M' ∈ run then monthTokens run.length
  else []

/-- A run of equal letters that is made of tokens. -/
def IsCut (run : List Char) : Prop :=
  (∀ c ∈ run, c = 'D' ∨ c = 'M' ∨ c = 'Y') ∧ ('D' ∈ run ∨ 'Y' ∈ run → run.length % 2 = 0) ∧
    ('M' ∈ run → 2 ≤ run.length)

/-! ## A run in front of a text -/

/-- The letter that a token repeats. -/
def Token.letter : Token → Char
  | .dd => 'D'
  | .mm | .mmm | .mmmm => 'M'
  | .yyyy | .yy => 'Y'

theorem Token.letters_eq_replicate (t : Token) :
    t.letters = List.replicate t.letters.length t.letter := by
  cases t <;> rfl

section Run

variable {c : Char} {rest : List Char} {n : Nat}

/-- A token is at the front of a run exactly when it repeats its letter and is not longer. -/
theorem Token.strip?_replicate_append (t : Token) (hrest : c ∉ rest.head?) (hn : 0 < n) :
    t.strip? (List.replicate n c ++ rest) =
      if t.letter = c ∧ t.letters.length ≤ n then
        some (List.replicate (n - t.letters.length) c ++ rest)
      else none := by
  split
  · next h =>
    obtain ⟨rfl, hle⟩ := h
    rw [strip?_eq_some_iff]
    nth_rewrite 1 [t.letters_eq_replicate]
    rw [← List.append_assoc, List.replicate_append_replicate, Nat.add_sub_cancel' hle]
  · next h =>
    have hpos : t.letters.length ≠ 0 := by simp [t.letters_ne_nil]
    rw [Option.eq_none_iff_forall_ne_some]
    intro r hr
    rw [strip?_eq_some_iff, t.letters_eq_replicate] at hr
    have hletter : c = t.letter := by
      simpa [List.head?_append, List.head?_replicate, hpos, hn.ne'] using congrArg List.head? hr
    subst hletter
    -- a longer token would go on with its letter behind the run
    obtain ⟨k, hk⟩ : ∃ k, t.letters.length = n + (k + 1) :=
      ⟨t.letters.length - n - 1, by simp at h; omega⟩
    rw [hk, ← List.replicate_append_replicate, List.append_assoc] at hr
    have hgoes : rest = List.replicate (k + 1) t.letter ++ r := List.append_cancel_left hr
    apply hrest
    rw [hgoes]
    simp [List.replicate_succ]

/-- The tokens of a run of `n` letters and the text behind it, if they begin with a given one. -/
def Token.tryAt (t : Token) (c : Char) (n : Nat) (rest : List Char) : Option (List Token) :=
  if t.letter = c ∧ t.letters.length ≤ n then
    (tokensOf (List.replicate (n - t.letters.length) c ++ rest)).map (t :: ·)
  else none

/-- The tokens that are tried at the front of a run are those that repeat its letter. -/
theorem tokensOf_replicate_append (hrest : c ∉ rest.head?) (hn : 0 < n) :
    tokensOf (List.replicate n c ++ rest) =
      (Token.yyyy.tryAt c n rest).or ((Token.mmmm.tryAt c n rest).or ((Token.mmm.tryAt c n rest).or
        ((Token.dd.tryAt c n rest).or ((Token.mm.tryAt c n rest).or
          (Token.yy.tryAt c n rest))))) := by
  have htry : ∀ t : Token, ((t.strip? (List.replicate n c ++ rest)).bind fun r =>
      (tokensOf r).map (t :: ·)) = t.tryAt c n rest := by
    intro t
    rw [t.strip?_replicate_append hrest hn, Token.tryAt]
    split <;> rfl
  have hor : ∀ (f : Token → Option (List Token)) (t : Token) (ts : List Token),
      (t :: ts).findSome? f = (f t).or (ts.findSome? f) := by
    intro f t ts
    rw [List.findSome?_cons]
    cases f t <;> rfl
  rw [tokensOf_of_ne_nil (by simp [hn.ne'])]
  simp only [Token.byLength, hor, htry, List.findSome?_nil, Option.or_none]

theorem tokensOf_days (hrest : 'D' ∉ rest.head?) (n : Nat) :
    tokensOf (List.replicate n 'D' ++ rest) =
      if n % 2 = 0 then (tokensOf rest).map (dayTokens n ++ ·) else none := by
  match n with
  | 0 => simp [dayTokens]
  | 1 =>
    rw [tokensOf_replicate_append hrest (by omega)]
    simp [Token.tryAt, Token.letter, Token.letters]
  | n + 2 =>
    have ih := tokensOf_days hrest n
    rw [tokensOf_replicate_append hrest (by omega), dayTokens_add]
    by_cases hn : n % 2 = 0 <;>
      simp [Token.tryAt, Token.letter, Token.letters, ih, hn, Function.comp_def]

theorem tokensOf_years (hrest : 'Y' ∉ rest.head?) (n : Nat) :
    tokensOf (List.replicate n 'Y' ++ rest) =
      if n % 2 = 0 then (tokensOf rest).map (yearTokens n ++ ·) else none := by
  match n with
  | 0 => simp [yearTokens]
  | 1 =>
    rw [tokensOf_replicate_append hrest (by omega)]
    simp [Token.tryAt, Token.letter, Token.letters]
  | 2 =>
    rw [tokensOf_replicate_append hrest (by omega)]
    simp [Token.tryAt, Token.letter, Token.letters, yearTokens]
  | 3 =>
    have ih : tokensOf ('Y' :: rest) = none := tokensOf_years hrest 1
    rw [tokensOf_replicate_append hrest (by omega)]
    simp [Token.tryAt, Token.letter, Token.letters, ih]
  | n + 4 =>
    have ih := tokensOf_years hrest n
    have ih' := tokensOf_years hrest (n + 2)
    have hmod : (n + 4) % 2 = n % 2 := by omega
    rw [tokensOf_replicate_append hrest (by omega), yearTokens_add, hmod]
    -- two letters less are no help where four letters less are none
    by_cases hn : n % 2 = 0
    · rcases ho : tokensOf rest with _ | ts <;>
        simp [Token.tryAt, Token.letter, Token.letters, ih, ih', hn, ho]
    · simp [Token.tryAt, Token.letter, Token.letters, ih, ih', hn]

theorem tokensOf_months (hrest : 'M' ∉ rest.head?) (n : Nat) :
    tokensOf (List.replicate n 'M' ++ rest) =
      if n ≠ 1 then (tokensOf rest).map (monthTokens n ++ ·) else none := by
  match n with
  | 0 => simp [monthTokens]
  | 1 =>
    rw [tokensOf_replicate_append hrest (by omega)]
    simp [Token.tryAt, Token.letter, Token.letters]
  | 2 =>
    rw [tokensOf_replicate_append hrest (by omega)]
    simp [Token.tryAt, Token.letter, Token.letters, monthTokens]
  | 3 =>
    have ih : tokensOf ('M' :: rest) = none := tokensOf_months hrest 1
    rw [tokensOf_replicate_append hrest (by omega)]
    simp [Token.tryAt, Token.letter, Token.letters, monthTokens, ih]
  | n + 4 =>
    have ih := tokensOf_months hrest n
    have ih' := tokensOf_months hrest (n + 1)
    have ih'' := tokensOf_months hrest (n + 2)
    rw [tokensOf_replicate_append hrest (by omega), if_pos (by omega)]
    rw [if_pos (by omega)] at ih''
    rcases ho : tokensOf rest with _ | ts
    · rw [ho] at ih ih' ih''
      simp [Token.tryAt, Token.letter, Token.letters, ih, ih', ih'']
    · by_cases hn : n = 1
      · -- of five letters four are not taken, since one would be left over
        have hthree : monthTokens (n + 4) = .mmm :: monthTokens (n + 1) := by rw [hn]; rfl
        rw [if_neg (by omega)] at ih
        rw [if_pos (by omega), ho] at ih'
        simp [Token.tryAt, Token.letter, Token.letters, ih, ih', hthree]
      · rw [if_pos hn, ho] at ih
        simp [Token.tryAt, Token.letter, Token.letters, ih, monthTokens_add hn]

/-- A run is cut whatever follows it, and the rest apart from it. -/
theorem tokensOf_run {ts : List Token} (hrest : c ∉ rest.head?) (hn : 0 < n) :
    tokensOf (List.replicate n c ++ rest) = some ts ↔
      IsCut (List.replicate n c) ∧
        ∃ us, tokensOf rest = some us ∧ runTokens (List.replicate n c) ++ us = ts := by
  by_cases hd : c = 'D'
  · subst hd
    simp [tokensOf_days hrest, IsCut, runTokens, hn.ne']
  by_cases hy : c = 'Y'
  · subst hy
    simp [tokensOf_years hrest, IsCut, runTokens, hn.ne']
  by_cases hm : c = 'M'
  · subst hm
    have hcut : (IsCut (List.replicate n 'M')) ↔ n ≠ 1 := by
      simp [IsCut, hn.ne']
      omega
    rw [tokensOf_months hrest, hcut]
    simp [runTokens, hn.ne']
  · rw [tokensOf_replicate_append hrest hn]
    simp [Token.tryAt, Token.letter, IsCut, hd, hy, hm, Ne.symm hd, Ne.symm hy, Ne.symm hm, hn.ne']

end Run

/-! ## A text run by run -/

/-- A text is empty, or a run of equal letters in front of a text that begins with another one. -/
theorem Text.runs_induction {motive : List Char → Prop} (nil : motive [])
    (run : ∀ (c : Char) (n : Nat) (rest : List Char), 0 < n → c ∉ rest.head? → motive rest →
      motive (List.replicate n c ++ rest))
    (s : List Char) : motive s := by
  induction hn : s.length using Nat.strongRecOn generalizing s with
  | ind k ih =>
    cases s with
    | nil => exact nil
    | cons c r =>
      have hfront : (r.takeWhile (· = c)) = List.replicate (r.takeWhile (· = c)).length c :=
        List.eq_replicate_of_mem fun d hd => by simpa using List.mem_takeWhile_imp hd
      have hs : c :: r = List.replicate ((r.takeWhile (· = c)).length + 1) c ++
          r.dropWhile (· = c) := by
        rw [List.replicate_succ, ← hfront, List.cons_append, List.takeWhile_append_dropWhile]
      rw [hs]
      refine run c _ _ (by omega) ?_ (ih _ ?_ _ rfl)
      · intro hc
        simpa using Text.of_mem_head?_dropWhile hc
      · rw [← hn, List.length_cons]
        exact Nat.lt_succ_of_le (List.dropWhile_suffix _).length_le

theorem Text.runs_replicate_append {c : Char} {rest : List Char} {n : Nat} (hrest : c ∉ rest.head?)
    (hn : 0 < n) : runs (List.replicate n c ++ rest) = List.replicate n c :: runs rest := by
  have hne : List.replicate n c ≠ [] := by simp [hn.ne']
  have hone : (List.replicate n c).splitBy (· == ·) = [List.replicate n c] :=
    List.splitBy_of_isChain hne (List.isChain_replicate_of_rel n (by simp))
  unfold runs
  rw [List.splitBy_append, hone, List.singleton_append]
  intro d hd e he
  obtain rfl : d = c := List.eq_of_mem_replicate (List.mem_of_mem_getLast? hd)
  simp only [beq_eq_false_iff_ne]
  rintro rfl
  exact hrest he

/-- A text is made of tokens exactly when its runs are, and its tokens are those of the runs. -/
theorem tokensOf_eq_some_iff_runs {s : List Char} {ts : List Token} :
    tokensOf s = some ts ↔
      (∀ run ∈ Text.runs s, IsCut run) ∧ (Text.runs s).flatMap runTokens = ts := by
  induction s using Text.runs_induction generalizing ts with
  | nil => simp [tokensOf_nil, Text.runs]
  | run c n rest hn hrest ih =>
    rw [tokensOf_run hrest hn, Text.runs_replicate_append hrest hn, List.forall_mem_cons,
      List.flatMap_cons]
    simp [ih, and_assoc]

theorem Text.mem_iff_runs {s : List Char} {c : Char} : c ∈ s ↔ ∃ run ∈ runs s, c ∈ run := by
  rw [← List.mem_flatten, runs, List.flatten_splitBy]

/-! ## The text of a part -/

/-- A text is cut into tokens exactly when it is not empty, has no other letters than `D`, `M` and
`Y`, its runs of `D` and of `Y` are of even length, and its runs of `M` of at least two letters.
The tokens are those of the runs, one after the other, and make up the text. -/
theorem tokenize_eq_runs (s : List Char) :
    ((tokenize s).isSome = true ↔
      s ≠ [] ∧ (∀ c ∈ s, c = 'D' ∨ c = 'M' ∨ c = 'Y') ∧
        ∀ run ∈ Text.runs s, ('D' ∈ run ∨ 'Y' ∈ run → run.length % 2 = 0) ∧
          ('M' ∈ run → 2 ≤ run.length)) ∧
    ∀ ts, tokenize s = some ts →
      ts = (Text.runs s).flatMap runTokens ∧ ts.flatMap Token.letters = s := by
  by_cases hs : s = []
  · simp [hs, tokenize]
  · have htokens : tokenize s = tokensOf s := if_neg hs
    rw [htokens]
    refine ⟨?_, fun ts hts => ?_⟩
    · rw [Option.isSome_iff_exists]
      simp only [tokensOf_eq_some_iff_runs, exists_and_left, exists_eq', and_true, ne_eq, hs,
        not_false_eq_true, true_and]
      constructor
      · intro h
        refine ⟨fun c hc => ?_, fun run hrun => (h run hrun).2⟩
        obtain ⟨run, hrun, hmem⟩ := Text.mem_iff_runs.1 hc
        exact (h run hrun).1 c hmem
      · rintro ⟨hletters, hlengths⟩ run hrun
        exact ⟨fun c hc => hletters c (Text.mem_iff_runs.2 ⟨run, hrun, hc⟩), hlengths run hrun⟩
    · exact ⟨(tokensOf_eq_some_iff_runs.1 hts).2.symm, flatMap_letters_of_tokensOf hts⟩

/-- Runs of two, five and six letters. -/
theorem tokenize_eq_runs_of_three :
    let s := "DDMMMMMYYYYYY".toList
    tokenize s = some [.dd, .mmm, .mm, .yyyy, .yy] ∧
      [Token.dd, .mmm, .mm, .yyyy, .yy] = (Text.runs s).flatMap runTokens ∧
      [Token.dd, .mmm, .mm, .yyyy, .yy].flatMap Token.letters = s := by
  intro s
  have h : tokenize s = some [.dd, .mmm, .mm, .yyyy, .yy] := by decide +kernel
  exact ⟨h, (tokenize_eq_runs s).2 _ h⟩

end NoteArchive
