import NoteArchive.Text.Blank

/-!
# Trimmed texts

* `trim_within`: a trimmed text is a part of the text.  `length_trim_lt`: a shorter one, if anything
  was taken away.
* `trim_eq_self_iff`: nothing is taken away exactly when both ends stay.
* `trim_trim`: trimming once is enough.
-/

namespace NoteArchive.Text

variable {α : Type} {p : α → Bool} {s : List α}

theorem trim_within (p : α → Bool) (s : List α) : trim p s <:+: s := by
  have hback : ((s.dropWhile p).reverse.dropWhile p).reverse <+: s.dropWhile p := by
    rw [← List.reverse_suffix, List.reverse_reverse]
    exact List.dropWhile_suffix p
  exact hback.isInfix.trans (List.dropWhile_suffix p).isInfix

theorem length_trim_lt (h : trim p s ≠ s) : (trim p s).length < s.length := by
  have hle := (trim_within p s).length_le
  have hne : (trim p s).length ≠ s.length := fun he => h ((trim_within p s).eq_of_length he)
  omega

theorem dropWhile_eq_self (h : ∀ c ∈ s.head?, p c = false) : s.dropWhile p = s := by
  cases s with
  | nil => rfl
  | cons c rest => exact List.dropWhile_cons_of_neg (by simp [h c rfl])

theorem of_mem_head?_dropWhile {c : α} (h : c ∈ (s.dropWhile p).head?) : p c = false := by
  have hnot := List.head?_dropWhile_not p s
  rw [Option.mem_def.1 h] at hnot
  simpa using hnot

theorem head?_trim {c : α} (h : c ∈ (trim p s).head?) : p c = false := by
  have hback : trim p s <+: s.dropWhile p := by
    rw [trim, ← List.reverse_suffix, List.reverse_reverse]
    exact List.dropWhile_suffix p
  refine of_mem_head?_dropWhile (s := s) ?_
  obtain ⟨rest, hrest⟩ := hback
  rw [← hrest, List.head?_append, Option.mem_def.1 h]
  rfl

theorem getLast?_trim {c : α} (h : c ∈ (trim p s).getLast?) : p c = false := by
  rw [trim, List.getLast?_reverse] at h
  exact of_mem_head?_dropWhile h

/-- Nothing is taken away exactly when both ends stay. -/
theorem trim_eq_self_iff :
    trim p s = s ↔ (∀ c ∈ s.head?, p c = false) ∧ ∀ c ∈ s.getLast?, p c = false := by
  constructor
  · intro h
    rw [← h]
    exact ⟨fun c => head?_trim, fun c => getLast?_trim⟩
  · rintro ⟨hhead, hlast⟩
    have hback : s.reverse.dropWhile p = s.reverse :=
      dropWhile_eq_self (by rwa [List.head?_reverse])
    rw [trim, dropWhile_eq_self hhead, hback, List.reverse_reverse]

theorem trim_trim (p : α → Bool) (s : List α) : trim p (trim p s) = trim p s :=
  trim_eq_self_iff.2 ⟨fun _ => head?_trim, fun _ => getLast?_trim⟩

end NoteArchive.Text
