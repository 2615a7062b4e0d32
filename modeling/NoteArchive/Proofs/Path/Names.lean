import Mathlib.Data.List.Infix
import NoteArchive.Path
import NoteArchive.Proofs.Disk.Tree

/-!
# Names in the text of a path

The text of a path is read into names and written from names.  This module relates the two.

* `Path.IsPart`: a name that counts in the text of a path.
* `Path.components_append_slash`: the names of two texts with a slash between them.
* `Path.mark_text_ne_empty`: an absolute path that is written down is absolute.
* `Path.ofString_text`: a relative path that is written down is read back.
* `Path.isVaultRelative_iff`: which texts lead to names inside the vault.
* `Path.stepsFrom_eq`: the steps to a folder are the beginnings of its names.
-/

namespace NoteArchive

/-! ## Splitting -/

namespace Text

theorem splitOn_eq_list_splitOn (sep : Char) (s : List Char) : splitOn sep s = s.splitOn sep := by
  induction s with
  | nil => rfl
  | cons c r ih =>
    rw [List.splitOn_cons_eq_if_modifyHead, splitOn, ih]
    obtain ⟨piece, pieces, h⟩ := List.exists_cons_of_ne_nil (List.splitOn_ne_nil sep r)
    by_cases hc : c = sep
    · simp [hc]
    · simp [hc, h]

theorem not_mem_of_mem_splitOn {sep : Char} {s p : List Char} (h : p ∈ splitOn sep s) :
    sep ∉ p := by
  induction s generalizing p with
  | nil =>
    rw [splitOn_nil, List.mem_singleton] at h
    simp [h]
  | cons c r ih =>
    rw [splitOn] at h
    split at h
    · rcases List.mem_cons.1 h with rfl | h
      · simp
      · exact ih h
    · next hc =>
      obtain ⟨piece, pieces, hr⟩ := List.exists_cons_of_ne_nil (splitOn_ne_nil sep r)
      rw [hr] at h ih
      rcases List.mem_cons.1 h with rfl | h
      · rw [List.mem_cons]
        rintro (rfl | hm)
        · exact hc rfl
        · exact ih List.mem_cons_self hm
      · exact ih (List.mem_cons_of_mem _ h)

end Text

namespace Path

/-! ## Names that count -/

/-- A name that counts in the text of a path. -/
structure IsPart (name : String) : Prop where
  ne_empty : name ≠ ""
  ne_point : name ≠ "."
  no_slash : '/' ∉ name.toList

theorem isPart_of_isName {name : String} (h : IsName name) : IsPart name :=
  ⟨h.ne_empty, h.ne_point, h.no_slash⟩

theorem components_append_slash (a b : List Char) :
    components (a ++ '/' :: b) = components a ++ components b := by
  simp only [components, Text.splitOn_eq_list_splitOn, List.splitOn_append_cons_self,
    List.filter_append, List.map_append]

theorem components_of_isPart {name : String} (h : IsPart name) :
    components name.toList = [name] := by
  have hne : name.toList ≠ [] := fun hn => h.ne_empty (String.toList_eq_nil_iff.1 hn)
  have hpt : name.toList ≠ ['.'] := fun hn => h.ne_point (String.toList_inj.1 hn)
  rw [components, Text.splitOn_eq_list_splitOn, List.splitOn_eq_singleton h.no_slash]
  simp [hne, hpt]

theorem isPart_of_mem_components {s : List Char} {name : String} (h : name ∈ components s) :
    IsPart name := by
  obtain ⟨p, hp, rfl⟩ := List.mem_map.1 h
  obtain ⟨hs, hc⟩ := List.mem_filter.1 hp
  rw [decide_eq_true_eq] at hc
  constructor
  · intro he
    exact hc.1 (by simpa using congrArg String.toList he)
  · intro he
    exact hc.2 (by simpa using congrArg String.toList he)
  · rw [String.toList_ofList]
    exact Text.not_mem_of_mem_splitOn hs

theorem isPart_of_mem_parts {s name : String} (h : name ∈ (ofString s).parts) : IsPart name :=
  isPart_of_mem_components h

theorem components_intercalate {names : List String} (h : ∀ name ∈ names, IsPart name) :
    components ("/".intercalate names).toList = names := by
  induction names with
  | nil => rfl
  | cons name rest ih =>
    have hname := h name List.mem_cons_self
    by_cases hr : rest = []
    · rw [hr, String.intercalate_singleton]
      exact components_of_isPart hname
    · have hcut : ("/".intercalate (name :: rest)).toList =
          name.toList ++ '/' :: ("/".intercalate rest).toList := by
        rw [String.intercalate_cons_of_ne_nil hr]
        simp
      rw [hcut, components_append_slash, components_of_isPart hname,
        ih fun n hn => h n (List.mem_cons_of_mem _ hn)]
      rfl

/-! ## Marks -/

theorem markOf_eq_empty_iff {s : List Char} : markOf s = "" ↔ s.head? ≠ some '/' := by
  rcases s with _ | ⟨c, r⟩
  · simp [markOf]
  · by_cases hc : c = '/'
    · subst hc
      rw [markOf]
      simp only [List.takeWhile_cons, decide_true, if_true, List.length_cons, List.head?_cons]
      split <;> simp_all
    · simp [markOf, hc]

theorem ofString_mark (s : String) : (ofString s).mark = markOf s.toList := rfl

theorem markOf_cases (s : List Char) : markOf s = "" ∨ markOf s = "/" ∨ markOf s = "//" := by
  rw [markOf]
  split
  · exact Or.inl rfl
  · exact Or.inr (Or.inr rfl)
  · exact Or.inr (Or.inl rfl)

/-- What is written with the mark of an absolute path is absolute. -/
theorem markOf_append_ne_empty {s : List Char} (h : markOf s ≠ "") (names : List Char) :
    markOf ((markOf s).toList ++ names) ≠ "" := by
  rw [ne_eq, markOf_eq_empty_iff, not_not]
  rcases markOf_cases s with hm | hm | hm
  · exact absurd hm h
  · rw [hm]
    rfl
  · rw [hm]
    rfl

theorem markOf_append {a : List Char} (ha : a ≠ []) (b : List Char) :
    markOf (a ++ b) = "" ↔ markOf a = "" := by
  rw [markOf_eq_empty_iff, markOf_eq_empty_iff]
  obtain ⟨c, r, rfl⟩ := List.exists_cons_of_ne_nil ha
  simp

/-- A path that is written with the mark of an absolute path is absolute. -/
theorem mark_text_ne_empty {s : String} (h : (ofString s).mark ≠ "") (names : List String) :
    (ofString (Path.mk (ofString s).mark names).text).mark ≠ "" := by
  rw [ofString_mark (text _), text]
  dsimp only
  split
  · rw [← List.append_nil (ofString s).mark.toList]
    exact markOf_append_ne_empty h []
  · rw [String.toList_append]
    exact markOf_append_ne_empty h _

/-! ## Relative paths -/

theorem text_relative {names : List String} (h : names ≠ []) :
    (Path.mk "" names).text = "/".intercalate names := by
  simp [text, h]

theorem head?_intercalate_ne {names : List String} (h : ∀ name ∈ names, IsPart name) :
    ("/".intercalate names).toList.head? ≠ some '/' := by
  rcases names with _ | ⟨name, rest⟩
  · simp
  · have hname := h name List.mem_cons_self
    obtain ⟨c, r, hcr⟩ := List.exists_cons_of_ne_nil
      (fun hn => hname.ne_empty (String.toList_eq_nil_iff.1 hn) : name.toList ≠ [])
    have hc : c ≠ '/' := by
      rintro rfl
      exact hname.no_slash (by simp [hcr])
    by_cases hr : rest = []
    · simp [hr, hcr, hc]
    · rw [String.intercalate_cons_of_ne_nil hr]
      simp [hcr, hc]

theorem ofString_intercalate {names : List String} (h : ∀ name ∈ names, IsPart name) :
    ofString ("/".intercalate names) = ⟨"", names⟩ := by
  rw [ofString, components_intercalate h, markOf_eq_empty_iff.2 (head?_intercalate_ne h)]

/-- A relative path that is written down is read back. -/
theorem ofString_text {names : List String} (h : ∀ name ∈ names, IsPart name) :
    ofString (Path.mk "" names).text = ⟨"", names⟩ := by
  by_cases hn : names = []
  · subst hn
    decide +kernel
  · rw [text_relative hn, ofString_intercalate h]

/-- A text that leads to names inside the vault. -/
theorem isVaultRelative_iff {s : String} :
    isVaultRelative s = true ↔ (ofString s).mark = "" ∧ ".." ∉ (ofString s).parts := by
  simp [isVaultRelative, isInside]

/-! ## Steps -/

/-- The steps below `done` are the beginnings of the other names, the empty one left out. -/
theorem stepsFrom_eq (done names : List String) :
    stepsFrom done names = names.inits.tail.map (done ++ ·) := by
  induction names generalizing done with
  | nil => rfl
  | cons name rest ih =>
    obtain ⟨more, hmore⟩ : ∃ more, rest.inits = [] :: more := by cases rest <;> simp
    rw [stepsFrom, ih, List.inits_cons, List.tail_cons, hmore]
    simp

theorem prefix_of_mem_stepsFrom {done rest names : List String}
    (h : names ∈ stepsFrom done rest) : names <+: done ++ rest := by
  rw [stepsFrom_eq] at h
  obtain ⟨more, hmore, rfl⟩ := List.mem_map.1 h
  exact (List.prefix_append_right_inj done).2 ((List.mem_inits _ _).1 (List.mem_of_mem_tail hmore))

end Path

end NoteArchive
