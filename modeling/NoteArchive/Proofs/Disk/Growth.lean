import NoteArchive.Proofs.Disk.Tree

/-!
# Disks that get folders

* `Disk.Grows allowed d d'`: `d'` is `d` with new folders, one after the other, each in a folder
  that was there by then and at a place that is `allowed`.
* `Grows.get?_cases`: what is new is a folder, and nothing else changes.
* `Grows.isTree`: new folders leave a tree.
-/

namespace NoteArchive.Disk

/-- A disk gets new folders at allowed places. -/
inductive Grows (allowed : Place → Prop) (d : Disk) : Disk → Prop where
  | refl : Grows allowed d d
  | step {d' : Disk} {q : Place} {name : String} (before : Grows allowed d d')
      (ok : allowed (q ++ [name])) (hname : IsName name) (hfolder : d'.get? q = some .folder)
      (hnone : d'.get? (q ++ [name]) = none) :
      Grows allowed d (d'.insert (q ++ [name]) .folder)

namespace Grows

variable {allowed : Place → Prop} {d d' d'' : Disk}

theorem trans (h : Grows allowed d d') (h' : Grows allowed d' d'') : Grows allowed d d'' := by
  induction h' with
  | refl => exact h
  | step _ ok hname hfolder hnone ih => exact .step ih ok hname hfolder hnone

theorem mono {allowed' : Place → Prop} (h : Grows allowed d d')
    (ha : ∀ p, allowed p → allowed' p) : Grows allowed' d d' := by
  induction h with
  | refl => exact .refl
  | step _ ok hname hfolder hnone ih => exact .step ih (ha _ ok) hname hfolder hnone

/-- What is new is a folder at an allowed place, and nothing else changes. -/
theorem get?_cases (h : Grows allowed d d') (p : Place) :
    d'.get? p = d.get? p ∨ (d.get? p = none ∧ d'.get? p = some .folder ∧ allowed p) := by
  induction h with
  | refl => exact Or.inl rfl
  | @step d' q name _ ok _ _ hnone ih =>
    by_cases hp : p = q ++ [name]
    · subst hp
      have hself := get?_insert_self (by simp) hnone .folder
      rcases ih with ih | ⟨_, hf, _⟩
      · exact Or.inr ⟨ih ▸ hnone, hself, ok⟩
      · rw [hnone] at hf
        cases hf
    · rw [get?_insert_of_ne hp]
      exact ih

theorem get?_of_some (h : Grows allowed d d') {p : Place} {e : Entry} (he : d.get? p = some e) :
    d'.get? p = some e := by
  rcases h.get?_cases p with hp | ⟨hn, -, -⟩
  · rw [hp, he]
  · rw [hn] at he
    cases he

theorem get?_of_none (h : Grows allowed d d') {p : Place} (hp : d'.get? p = none) :
    d.get? p = none := by
  rcases he : d.get? p with _ | e
  · rfl
  · rw [h.get?_of_some he] at hp
    cases hp

theorem isFile_iff (h : Grows allowed d d') {p : Place} : d'.IsFile p ↔ d.IsFile p := by
  constructor
  · rintro ⟨bytes, hb⟩
    rcases h.get?_cases p with hp | ⟨-, hf, -⟩
    · exact ⟨bytes, hp ▸ hb⟩
    · rw [hf] at hb
      cases hb
  · rintro ⟨bytes, hb⟩
    exact ⟨bytes, h.get?_of_some hb⟩

theorem get?_of_isFile (h : Grows allowed d d') {p : Place} (hp : d'.IsFile p) :
    d'.get? p = d.get? p := by
  obtain ⟨bytes, hb⟩ := h.isFile_iff.1 hp
  rw [h.get?_of_some hb, hb]

theorem longestPath_eq (h : Grows allowed d d') : d'.longestPath = d.longestPath := by
  induction h with
  | refl => rfl
  | step _ _ _ _ _ ih => exact ih

theorem isTree (h : Grows allowed d d') (ht : d.IsTree) : d'.IsTree := by
  induction h with
  | refl => exact ht
  | step _ _ hname hfolder hnone ih => exact ih.insert hname hfolder hnone .folder

end Grows

end NoteArchive.Disk
