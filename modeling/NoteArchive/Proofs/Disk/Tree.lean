import NoteArchive.Disk
import Mathlib.Data.List.Nodup
import Mathlib.Tactic.Common

/-!
# Disks that are trees

A disk is a list of entries, and not every list is a tree of files and folders.  This module says
which ones are, and what the search and the changes of a disk come to on a tree.

* `Disk.IsTree`: no place has two entries, what is above an entry is a folder, and names are names.
* `IsTree.lookup_eq_found_iff`: on a tree the search finds exactly what the view shows.
* `IsTree.makeFolder_eq_ok`, `IsTree.of_makeFolder`: when a folder can be made.
* `IsTree.get?_move`: a move takes the source with all that is under it to the target.
* `IsTree.insert`, `IsTree.putFile`, `IsTree.move`: the changes leave a tree.
-/

namespace NoteArchive

/-- The name of a file or a folder. -/
structure IsName (name : String) : Prop where
  ne_empty : name ≠ ""
  ne_point : name ≠ "."
  ne_points : name ≠ ".."
  no_slash : '/' ∉ name.toList
  no_null : '\x00' ∉ name.toList
  short : Disk.isTooLong name = false

namespace Disk

/-- The entries of a disk make up a tree. -/
structure IsTree (d : Disk) : Prop where
  nodup : (d.entries.map Prod.fst).Nodup
  ne_root : ∀ x ∈ d.entries, x.1 ≠ []
  above : ∀ {p e}, d.get? p = some e → p ≠ [] → d.get? p.dropLast = some .folder
  names : ∀ {p e}, d.get? p = some e → ∀ name ∈ p, IsName name

instance (name : String) : Decidable (IsName name) :=
  decidable_of_iff
    (name ≠ "" ∧ name ≠ "." ∧ name ≠ ".." ∧ '/' ∉ name.toList ∧ '\x00' ∉ name.toList ∧
      isTooLong name = false)
    ⟨fun ⟨h₁, h₂, h₃, h₄, h₅, h₆⟩ => ⟨h₁, h₂, h₃, h₄, h₅, h₆⟩,
      fun ⟨h₁, h₂, h₃, h₄, h₅, h₆⟩ => ⟨h₁, h₂, h₃, h₄, h₅, h₆⟩⟩

def IsFile (d : Disk) (p : Place) : Prop := ∃ bytes, d.get? p = some (.file bytes)

theorem not_isFile_of_folder {d : Disk} {p : Place} (h : d.get? p = some .folder) :
    ¬ d.IsFile p := by
  rintro ⟨bytes, hb⟩
  rw [h] at hb
  cases hb

theorem not_isFile_of_none {d : Disk} {p : Place} (h : d.get? p = none) : ¬ d.IsFile p := by
  rintro ⟨bytes, hb⟩
  rw [h] at hb
  cases hb

theorem isFile_ne_nil {d : Disk} {p : Place} (h : d.IsFile p) : p ≠ [] := by
  rintro rfl
  exact not_isFile_of_folder (get?_nil d) h

/-- An entry is nothing, a folder or a file. -/
theorem get?_cases (d : Disk) (p : Place) :
    d.get? p = none ∨ d.get? p = some .folder ∨ d.IsFile p := by
  rcases h : d.get? p with _ | _ | _
  · exact Or.inl rfl
  · exact Or.inr (Or.inr ⟨_, h⟩)
  · exact Or.inr (Or.inl rfl)

/-! ### Entries and the view -/

theorem mem_of_find {p : Place} {e : Entry} {l : List (Place × Entry)} (h : find p l = some e) :
    (p, e) ∈ l := by
  induction l with
  | nil => cases h
  | cons x rest ih =>
    rw [find] at h
    split at h
    · next hx =>
      cases h
      subst hx
      exact List.mem_cons_self
    · exact List.mem_cons_of_mem _ (ih h)

theorem find_of_mem {p : Place} {e : Entry} {l : List (Place × Entry)}
    (hl : (l.map Prod.fst).Nodup) (h : (p, e) ∈ l) : find p l = some e := by
  induction l with
  | nil => cases h
  | cons x rest ih =>
    rw [List.map_cons, List.nodup_cons] at hl
    rw [find]
    rcases List.mem_cons.1 h with rfl | h
    · rw [if_pos rfl]
    · have hne : x.1 ≠ p := fun hx => hl.1 (hx ▸ List.mem_map_of_mem h)
      rw [if_neg hne]
      exact ih hl.2 h

theorem find_eq_none {p : Place} {l : List (Place × Entry)} :
    find p l = none ↔ ∀ x ∈ l, x.1 ≠ p := by
  induction l with
  | nil => simp [find]
  | cons x rest ih =>
    rw [find]
    split <;> simp_all

namespace IsTree

variable {d : Disk}

theorem mem_entries_iff (h : d.IsTree) {p : Place} {e : Entry} :
    (p, e) ∈ d.entries ↔ p ≠ [] ∧ d.get? p = some e := by
  constructor
  · intro hm
    have hp : p ≠ [] := h.ne_root _ hm
    rw [get?_of_ne_nil hp]
    exact ⟨hp, find_of_mem h.nodup hm⟩
  · rintro ⟨hp, he⟩
    rw [get?_of_ne_nil hp] at he
    exact mem_of_find he

/-- Being a tree shows in the entries. -/
theorem iff_entries : d.IsTree ↔
    (d.entries.map Prod.fst).Nodup ∧ ∀ x ∈ d.entries, x.1 ≠ [] ∧
      d.get? x.1.dropLast = some .folder ∧ ∀ name ∈ x.1, IsName name := by
  constructor
  · intro h
    refine ⟨h.nodup, fun x hx => ?_⟩
    obtain ⟨hne, he⟩ := h.mem_entries_iff.1 hx
    exact ⟨hne, h.above he hne, h.names he⟩
  · rintro ⟨hnodup, hall⟩
    refine ⟨hnodup, fun x hx => (hall x hx).1, fun {p e} he hp => ?_, fun {p e} he => ?_⟩
    · rw [get?_of_ne_nil hp] at he
      exact (hall _ (mem_of_find he)).2.1
    · by_cases hp : p = []
      · simp [hp]
      · rw [get?_of_ne_nil hp] at he
        exact (hall _ (mem_of_find he)).2.2

instance (d : Disk) : Decidable d.IsTree := decidable_of_iff _ iff_entries.symm

/-- Everything on the way to an entry is a folder. -/
theorem folder_of_append (h : d.IsTree) {p r : Place} {e : Entry} (he : d.get? (p ++ r) = some e)
    (hr : r ≠ []) : d.get? p = some .folder := by
  induction hn : r.length generalizing r e with
  | zero => exact absurd (List.eq_nil_of_length_eq_zero hn) hr
  | succ n ih =>
    have ha := h.above he (by simp [hr])
    rw [List.dropLast_append_of_ne_nil hr] at ha
    by_cases hr' : r.dropLast = []
    · rwa [hr', List.append_nil] at ha
    · exact ih ha hr' (by rw [List.length_dropLast]; omega)

theorem folder_of_prefix (h : d.IsTree) {p q : Place} {e : Entry} (he : d.get? q = some e)
    (hp : p <+: q) (hne : p ≠ q) : d.get? p = some .folder := by
  obtain ⟨r, rfl⟩ := hp
  exact h.folder_of_append he (by rintro rfl; simp at hne)

/-- No file leads to a folder. -/
theorem not_isFile_of_prefix (h : d.IsTree) {p q : Place} (hq : d.get? q = some .folder)
    (hp : p <+: q) : ¬ d.IsFile p := by
  rcases eq_or_ne p q with rfl | hne
  · exact not_isFile_of_folder hq
  · exact not_isFile_of_folder (h.folder_of_prefix hq hp hne)

theorem none_under_file (h : d.IsTree) {p r : Place} (hp : d.IsFile p) (hr : r ≠ []) :
    d.get? (p ++ r) = none := by
  rcases hq : d.get? (p ++ r) with _ | e
  · rfl
  · exact absurd hp (not_isFile_of_folder (h.folder_of_append hq hr))

/-- Nothing is under a place where nothing is. -/
theorem none_under_none (h : d.IsTree) {p : Place} (hp : d.get? p = none) (r : Place) :
    d.get? (p ++ r) = none := by
  by_cases hr : r = []
  · rwa [hr, List.append_nil]
  · rcases hq : d.get? (p ++ r) with _ | e
    · rfl
    · rw [h.folder_of_append hq hr] at hp
      cases hp

end IsTree

/-! ### The search -/

theorem lookupFrom_nil_of_some {d : Disk} {q : Place} {e : Entry} (h : d.get? q = some e) :
    d.lookupFrom q [] = .found e := by
  rw [lookupFrom, h]

theorem lookupFrom_cons_of_folder {d : Disk} {q : Place} (h : d.get? q = some .folder)
    {name : String} (hs : isTooLong name = false) (rest : List String) :
    d.lookupFrom q (name :: rest) = d.lookupFrom (q ++ [name]) rest := by
  rw [lookupFrom, h]
  simp [hs]

/-- What the search finds is what the view shows. -/
theorem get?_of_lookupFrom {d : Disk} {q : Place} {rest : List String} {e : Entry}
    (h : d.lookupFrom q rest = .found e) : d.get? (q ++ rest) = some e := by
  -- the search goes down one name at a time
  induction rest generalizing q with
  | nil =>
    rw [lookupFrom] at h
    rw [List.append_nil]
    split at h
    · cases h
    · next he =>
      cases h
      exact he
  | cons name rest ih =>
    rw [lookupFrom] at h
    split at h
    · cases h
    · cases h
    · split at h
      · cases h
      · simpa using ih h

/-- A search that ends at a name that is too long got to the folder before it. -/
theorem of_lookupFrom_eq_nameTooLong {d : Disk} {q rest : Place}
    (h : d.lookupFrom q rest = .nameTooLong) :
    ∃ r name more, rest = r ++ name :: more ∧ d.get? (q ++ r) = some .folder ∧
      isTooLong name = true := by
  -- the search goes down one name at a time
  induction rest generalizing q with
  | nil =>
    rw [lookupFrom] at h
    split at h <;> cases h
  | cons name rest ih =>
    rw [lookupFrom] at h
    split at h
    · cases h
    · cases h
    · next hq =>
      split at h
      · next hlong => exact ⟨[], name, rest, rfl, by rwa [List.append_nil], hlong⟩
      · obtain ⟨r, last, more, rfl, hr, hlong⟩ := ih h
        refine ⟨name :: r, last, more, rfl, ?_, hlong⟩
        rwa [List.append_cons]

theorem get?_of_lookup {d : Disk} {p : Place} {e : Entry} (h : d.lookup p = .found e) :
    d.get? p = some e := by
  simpa using get?_of_lookupFrom h

namespace IsTree

variable {d : Disk}

/-- The search goes on from any folder on the way. -/
theorem lookupFrom_append (h : d.IsTree) {q r : Place} (hf : d.get? (q ++ r) = some .folder)
    (rest : List String) : d.lookupFrom q (r ++ rest) = d.lookupFrom (q ++ r) rest := by
  induction r generalizing q with
  | nil => simp
  | cons name r ih =>
    have hq : d.get? q = some .folder := h.folder_of_append hf (by simp)
    have hs : isTooLong name = false := (h.names hf name (by simp)).short
    have hf' : d.get? ((q ++ [name]) ++ r) = some .folder := by simpa using hf
    rw [List.cons_append, lookupFrom_cons_of_folder hq hs, ih hf']
    simp

theorem lookup_append (h : d.IsTree) {q : Place} (hf : d.get? q = some .folder)
    (rest : List String) : d.lookup (q ++ rest) = d.lookupFrom q rest := by
  have := h.lookupFrom_append (q := []) (r := q) (by simpa using hf) rest
  simpa [lookup] using this

/-- On a tree the search finds exactly what the view shows. -/
theorem lookup_eq_found_iff (h : d.IsTree) {p : Place} {e : Entry} :
    d.lookup p = .found e ↔ d.get? p = some e := by
  constructor
  · exact get?_of_lookup
  · intro he
    rcases List.eq_nil_or_concat' p with rfl | ⟨q, name, rfl⟩
    · exact lookupFrom_nil_of_some he
    · have hq : d.get? q = some .folder := h.folder_of_append he (by simp)
      have hs : isTooLong name = false := (h.names he name (by simp)).short
      rw [h.lookup_append hq, lookupFrom_cons_of_folder hq hs]
      exact lookupFrom_nil_of_some he

theorem isFolder_iff (h : d.IsTree) {p : Place} :
    d.isFolder p = true ↔ d.get? p = some .folder := by
  rw [isFolder, decide_eq_true_iff, h.lookup_eq_found_iff]

/-- The search for a name that is not in a folder. -/
theorem lookup_missing (h : d.IsTree) {q : Place} (hf : d.get? q = some .folder) {name : String}
    (hs : isTooLong name = false) (hn : d.get? (q ++ [name]) = none) :
    d.lookup (q ++ [name]) = .missing := by
  rw [h.lookup_append hf, lookupFrom_cons_of_folder hf hs, lookupFrom, hn]

/-- The search meets a name that is too long exactly where it gets to the folder before it. -/
theorem lookup_eq_nameTooLong_iff (h : d.IsTree) {p : Place} :
    d.lookup p = .nameTooLong ↔
      ∃ q name rest, p = q ++ name :: rest ∧ d.get? q = some .folder ∧ isTooLong name = true := by
  constructor
  · intro hl
    obtain ⟨r, name, more, hp, hr, hlong⟩ := of_lookupFrom_eq_nameTooLong hl
    exact ⟨r, name, more, hp, hr, hlong⟩
  · rintro ⟨q, name, rest, rfl, hq, hlong⟩
    rw [h.lookup_append hq, lookupFrom, hq]
    exact if_pos hlong

/-! ### Making a folder -/

/-- A folder can be made where nothing is in a folder that is there. -/
theorem makeFolder_eq_ok (h : d.IsTree) {q : Place} (hf : d.get? q = some .folder) {name : String}
    (hs : isTooLong name = false) (hn : d.get? (q ++ [name]) = none) :
    d.makeFolder (q ++ [name]) = .ok (d.insert (q ++ [name]) .folder) := by
  have hq : d.isFolder (q ++ [name]).dropLast = true := by
    rw [List.dropLast_concat]
    exact h.isFolder_iff.2 hf
  rw [makeFolder, h.lookup_missing hf hs hn]
  simp only [hq, if_true]

/-- A folder that was made is a new entry in a folder. -/
theorem of_makeFolder (h : d.IsTree) {p : Place} {d' : Disk} (hd : d.makeFolder p = .ok d') :
    ∃ q name, p = q ++ [name] ∧ isTooLong name = false ∧ d.get? q = some .folder ∧
      d.get? p = none ∧ d' = d.insert p .folder := by
  rw [makeFolder] at hd
  split at hd
  · cases hd
  · cases hd
  · cases hd
  · next hl =>
    -- the search missed the place, so nothing is there
    have hn : d.get? p = none := by
      rcases hp : d.get? p with _ | e
      · rfl
      · rw [h.lookup_eq_found_iff.2 hp] at hl
        cases hl
    rcases List.eq_nil_or_concat' p with rfl | ⟨q, name, rfl⟩
    · rw [get?_nil] at hn
      cases hn
    · rw [List.dropLast_concat] at hd
      split at hd
      · next hf =>
        have hq := h.isFolder_iff.1 hf
        refine ⟨q, name, rfl, ?_, hq, hn, by cases hd; rfl⟩
        by_contra hs
        rw [h.lookup_append hq, lookupFrom, hq] at hl
        simp only [Bool.not_eq_false] at hs
        simp [hs] at hl
      · cases hd

/-- A new entry in a folder leaves a tree. -/
theorem insert (h : d.IsTree) {q : Place} {name : String} (hname : IsName name)
    (hf : d.get? q = some .folder) (hn : d.get? (q ++ [name]) = none) (e : Entry) :
    (d.insert (q ++ [name]) e).IsTree := by
  have hne : q ++ [name] ≠ [] := by simp
  constructor
  · simp only [Disk.insert, List.map_append, List.map_cons, List.map_nil, List.nodup_append]
    refine ⟨h.nodup, by simp, ?_⟩
    intro p hp r hr
    obtain ⟨x, hx, rfl⟩ := List.mem_map.1 hp
    rw [List.mem_singleton.1 hr]
    intro heq
    rw [get?_of_ne_nil hne, find_eq_none] at hn
    exact hn x hx heq
  · intro x hx
    rcases List.mem_append.1 hx with hx | hx
    · exact h.ne_root x hx
    · rw [List.mem_singleton.1 hx]
      exact hne
  · intro p e he hp
    by_cases hpn : p = q ++ [name]
    · subst hpn
      rw [List.dropLast_concat, get?_insert_of_ne (by simp), hf]
    · rw [get?_insert_of_ne hpn] at he
      have ha := h.above he hp
      -- the new entry is not above another one, since nothing was at its place
      rw [get?_insert_of_ne, ha]
      rintro heq
      rw [heq, hn] at ha
      cases ha
  · intro p e he x hx
    by_cases hpn : p = q ++ [name]
    · subst hpn
      rcases List.mem_append.1 hx with hx | hx
      · exact h.names hf x hx
      · rw [List.mem_singleton.1 hx]
        exact hname
    · rw [get?_insert_of_ne hpn] at he
      exact h.names he x hx

end IsTree

/-! ### Writing a file -/

theorem map_fst_replaceIn_of_some {p : Place} {e old : Entry} {l : List (Place × Entry)}
    (h : find p l = some old) : (replaceIn p e l).map Prod.fst = l.map Prod.fst := by
  induction l with
  | nil => cases h
  | cons x rest ih =>
    rw [find] at h
    rw [replaceIn]
    split at h
    · next hx => simp [hx]
    · next hx => simp [hx, ih h]

theorem replaceIn_of_none {p : Place} (e : Entry) {l : List (Place × Entry)}
    (h : find p l = none) : replaceIn p e l = l ++ [(p, e)] := by
  induction l with
  | nil => rfl
  | cons x rest ih =>
    rw [find] at h
    rw [replaceIn]
    split at h
    · cases h
    · next hx => simp [hx, ih h]

theorem replaceIn_self {p : Place} {e : Entry} {l : List (Place × Entry)}
    (h : find p l = some e) : replaceIn p e l = l := by
  induction l with
  | nil => cases h
  | cons x rest ih =>
    rw [find] at h
    rw [replaceIn]
    split at h
    · next hx =>
      cases h
      rw [if_pos hx]
    · next hx => rw [if_neg hx, ih h]

theorem putFile_of_none {d : Disk} {p : Place} (hp : p ≠ []) (hn : d.get? p = none)
    (bytes : List UInt8) :
    d.putFile p bytes = d.insert p (.file bytes) := by
  rw [get?_of_ne_nil hp] at hn
  rw [putFile, replaceIn_of_none _ hn]
  rfl

/-- Writing what a file holds changes nothing. -/
theorem putFile_self {d : Disk} {p : Place} {bytes : List UInt8}
    (hb : d.get? p = some (.file bytes)) :
    d.putFile p bytes = d := by
  rw [get?_of_ne_nil (isFile_ne_nil ⟨bytes, hb⟩)] at hb
  rw [putFile, replaceIn_self hb]

/-- A file with another content leaves a tree. -/
theorem IsTree.putFile_of_isFile {d : Disk} (h : d.IsTree) {p : Place} (hp : d.IsFile p)
    (bytes : List UInt8) :
    (d.putFile p bytes).IsTree := by
  have hne := isFile_ne_nil hp
  obtain ⟨old, hold⟩ := hp
  have hfind : find p d.entries = some (.file old) := by rwa [← get?_of_ne_nil hne]
  have hkeys : (d.putFile p bytes).entries.map Prod.fst = d.entries.map Prod.fst :=
    map_fst_replaceIn_of_some hfind
  -- a place other than `p` shows what it showed, and `p` shows a file as before
  have hback : ∀ {q e}, (d.putFile p bytes).get? q = some e → ∃ e', d.get? q = some e' := by
    intro q e he
    by_cases hq : q = p
    · exact ⟨_, hq ▸ hold⟩
    · exact ⟨e, by rwa [get?_putFile_of_ne hq] at he⟩
  constructor
  · rw [hkeys]
    exact h.nodup
  · intro x hx
    obtain ⟨y, hy, hyx⟩ := List.mem_map.1 (hkeys ▸ List.mem_map_of_mem hx : x.1 ∈ _)
    rw [← hyx]
    exact h.ne_root y hy
  · intro q e he hq
    obtain ⟨e', he'⟩ := hback he
    have ha := h.above he' hq
    rw [get?_putFile_of_ne, ha]
    rintro heq
    rw [heq, hold] at ha
    cases ha
  · intro q e he
    obtain ⟨e', he'⟩ := hback he
    exact h.names he'

/-! ### Moving -/

theorem relocate_injective {s t x r : Place} (ht : ¬ t <+: x)
    (hx : relocate s t x = t ++ r) : x = s ++ r := by
  unfold relocate at hx
  split at hx
  · next hs =>
    obtain ⟨y, rfl⟩ := List.isPrefixOf_iff_prefix.1 hs
    rw [List.drop_left] at hx
    rw [List.append_cancel_left hx]
  · exact absurd ⟨r, hx.symm⟩ ht

theorem relocate_of_not_target {s t x p : Place} (hp : ¬ t <+: p) (hx : relocate s t x = p) :
    x = p ∧ ¬ s <+: p := by
  unfold relocate at hx
  split at hx
  · exact absurd ⟨_, hx⟩ hp
  · next hs =>
    subst hx
    exact ⟨rfl, fun h => hs (List.isPrefixOf_iff_prefix.2 h)⟩

/-- The view of a list of entries whose places are changed by `f`, at a place that comes from one
place alone. -/
theorem find_map_of_unique {f : Place → Place} {p q : Place} (hpq : f p = q)
    {l : List (Place × Entry)} (hu : ∀ x ∈ l, f x.1 = q → x.1 = p) :
    find q (l.map fun (r, e) => (f r, e)) = find p l := by
  induction l with
  | nil => rfl
  | cons x rest ih =>
    rw [List.map_cons, find, find]
    by_cases hx : x.1 = p
    · rw [if_pos hx, if_pos (by rw [hx, hpq])]
    · have hne : f x.1 ≠ q := fun hf => hx (hu x List.mem_cons_self hf)
      rw [if_neg hx, if_neg hne]
      exact ih fun y hy => hu y (List.mem_cons_of_mem _ hy)

theorem of_move {d d' : Disk} {s t : Place} (hd : d.move s t = .ok d') :
    ¬ s <+: t ∧ d'.entries = d.entries.map fun (r, e) => (relocate s t r, e) := by
  unfold Disk.move at hd
  split at hd
  · cases hd
  · next hs =>
    cases hd
    exact ⟨fun h => hs (List.isPrefixOf_iff_prefix.2 h), rfl⟩

theorem longestPath_of_move {d d' : Disk} {s t : Place} (hd : d.move s t = .ok d') :
    d'.longestPath = d.longestPath := by
  unfold Disk.move at hd
  split at hd
  · cases hd
  · cases hd
    rfl

namespace IsTree

variable {d : Disk}

/-- No entry is at a place where nothing is, or under it. -/
theorem not_prefix_of_none (h : d.IsTree) {t : Place} (hn : d.get? t = none) :
    ∀ x ∈ d.entries, ¬ t <+: x.1 := by
  rintro x hx ⟨r, hr⟩
  have hsome := (h.mem_entries_iff.1 hx).2
  rw [← hr, h.none_under_none hn] at hsome
  cases hsome

/-- What a move does to the view: what is under the source comes under the target, and nothing
else changes. -/
theorem get?_move (h : d.IsTree) {s t : Place} (hs : s ≠ []) (ht : t ≠ [])
    (hn : d.get? t = none) {d' : Disk} (hd : d.move s t = .ok d') (p : Place) :
    d'.get? p =
      if t <+: p then d.get? (s ++ p.drop t.length)
      else if s <+: p then none else d.get? p := by
  have hfree := h.not_prefix_of_none hn
  by_cases hp : p = []
  · subst hp
    simp [get?_nil, List.prefix_nil, ht, hs]
  rw [get?_of_ne_nil hp, (of_move hd).2]
  split
  · next htp =>
    -- under the target is what was under the source
    obtain ⟨r, rfl⟩ := htp
    rw [List.drop_left, get?_of_ne_nil (by simp [hs])]
    exact find_map_of_unique (relocate_append s t r)
      fun x hx => relocate_injective (hfree x hx)
  · next htp =>
    split
    · next hsp =>
      rw [find_eq_none]
      intro y hy heq
      obtain ⟨x, -, rfl⟩ := List.mem_map.1 hy
      exact (relocate_of_not_target htp heq).2 hsp
    · next hsp =>
      have hrel : relocate s t p = p :=
        relocate_of_not_prefix (by simpa [← List.isPrefixOf_iff_prefix] using hsp) t
      rw [get?_of_ne_nil hp]
      exact find_map_of_unique hrel fun x _ hx => (relocate_of_not_target htp hx).1

/-- What is shown after a move was under the source, or is where it was. -/
theorem of_get?_move (h : d.IsTree) {s t : Place} (hs : s ≠ []) (ht : t ≠ [])
    (hn : d.get? t = none) {d' : Disk} (hd : d.move s t = .ok d') {p : Place} {e : Entry}
    (he : d'.get? p = some e) :
    (∃ r, p = t ++ r ∧ d.get? (s ++ r) = some e) ∨
      (¬ t <+: p ∧ ¬ s <+: p ∧ d.get? p = some e) := by
  rw [h.get?_move hs ht hn hd] at he
  by_cases htp : t <+: p
  · obtain ⟨r, rfl⟩ := htp
    rw [if_pos (List.prefix_append _ _), List.drop_left] at he
    exact Or.inl ⟨r, rfl, he⟩
  · rw [if_neg htp] at he
    split at he
    · cases he
    · next hsp => exact Or.inr ⟨htp, hsp, he⟩

/-- Entries at different places are moved to different places, if the target was free. -/
theorem nodup_relocate (h : d.IsTree) (s : Place) {t : Place} (hn : d.get? t = none) :
    ((d.entries.map Prod.fst).map (relocate s t)).Nodup := by
  have hfree := h.not_prefix_of_none hn
  refine List.Nodup.map_on ?_ h.nodup
  intro x hx y hy hxy
  obtain ⟨x', hx', rfl⟩ := List.mem_map.1 hx
  obtain ⟨y', hy', rfl⟩ := List.mem_map.1 hy
  -- both are under the source, or both stay
  by_cases hp : t <+: relocate s t x'.1
  · obtain ⟨r, hr⟩ := hp
    rw [relocate_injective (hfree x' hx') hr.symm,
      relocate_injective (hfree y' hy') (hxy.symm.trans hr.symm)]
  · rw [(relocate_of_not_target hp rfl).1, (relocate_of_not_target hp hxy.symm).1]

/-- After a move to a free place in a folder, what is above an entry is a folder. -/
theorem above_move (h : d.IsTree) {s q : Place} {name : String} (hs : s ≠ [])
    (hq : d.get? q = some .folder) (hn : d.get? (q ++ [name]) = none) {d' : Disk}
    (hd : d.move s (q ++ [name]) = .ok d') {p : Place} {e : Entry} (he : d'.get? p = some e)
    (hp : p ≠ []) : d'.get? p.dropLast = some .folder := by
  have hst := (of_move hd).1
  rcases h.of_get?_move hs (by simp) hn hd he with ⟨r, rfl, hr'⟩ | ⟨htp, hsp, hold⟩
  · rw [h.get?_move hs (by simp) hn hd]
    by_cases hr : r = []
    · subst hr
      have hlen : ¬ q ++ [name] <+: q := by
        intro hc
        have := hc.length_le
        rw [List.length_append, List.length_singleton] at this
        omega
      rw [List.append_nil, List.dropLast_concat, if_neg hlen,
        if_neg fun hc => hst (hc.trans (List.prefix_append _ _)), hq]
    · rw [List.dropLast_append_of_ne_nil hr, if_pos (List.prefix_append _ _), List.drop_left]
      have ha := h.above hr' (by simp [hs])
      rwa [List.dropLast_append_of_ne_nil hr] at ha
  · have hup : p.dropLast <+: p := List.dropLast_prefix p
    rw [h.get?_move hs (by simp) hn hd, if_neg fun hc => htp (hc.trans hup),
      if_neg fun hc => hsp (hc.trans hup)]
    exact h.above hold hp

/-- A move to a free place in a folder leaves a tree. -/
theorem move (h : d.IsTree) {s q : Place} {name : String} (hs : s ≠ []) (hname : IsName name)
    (hq : d.get? q = some .folder) (hn : d.get? (q ++ [name]) = none) {d' : Disk}
    (hd : d.move s (q ++ [name]) = .ok d') : d'.IsTree := by
  have hentries := (of_move hd).2
  constructor
  · have hkeys : d'.entries.map Prod.fst =
        (d.entries.map Prod.fst).map (relocate s (q ++ [name])) := by
      rw [hentries]
      simp
    rw [hkeys]
    exact h.nodup_relocate s hn
  · intro y hy
    rw [hentries] at hy
    obtain ⟨x, hx, rfl⟩ := List.mem_map.1 hy
    dsimp only
    unfold relocate
    split
    · simp
    · exact h.ne_root x hx
  · intro p e he hp
    exact h.above_move hs hq hn hd he hp
  · intro p e he x hx
    rcases h.of_get?_move hs (by simp) hn hd he with ⟨r, rfl, hr⟩ | ⟨-, -, hold⟩
    · -- the names of the folder, the new name, and those below the source
      rcases List.mem_append.1 hx with hx | hx
      · rcases List.mem_append.1 hx with hx | hx
        · exact h.names hq x hx
        · rw [List.mem_singleton.1 hx]
          exact hname
      · exact h.names hr x (List.mem_append_right _ hx)
    · exact h.names hold x hx

/-- A file that was moved is at its new place alone. -/
theorem get?_move_file (h : d.IsTree) {s t : Place} (hs : d.IsFile s) (ht : t ≠ [])
    (hn : d.get? t = none) {d' : Disk} (hd : d.move s t = .ok d') (p : Place) :
    d'.get? p = if p = t then d.get? s else if p = s then none else d.get? p := by
  rw [h.get?_move (isFile_ne_nil hs) ht hn hd]
  by_cases htp : t <+: p
  · obtain ⟨r, rfl⟩ := htp
    rw [if_pos (List.prefix_append _ _), List.drop_left]
    by_cases hr : r = []
    · simp [hr]
    · have hne : t ++ r ≠ t := by simpa using hr
      have hnone : d.get? (t ++ r) = none := h.none_under_none hn r
      rw [h.none_under_file hs hr, if_neg hne, hnone]
      split <;> rfl
  · have hne : p ≠ t := by
      rintro rfl
      exact htp List.prefix_rfl
    rw [if_neg htp, if_neg hne]
    by_cases hsp : s <+: p
    · obtain ⟨r, rfl⟩ := hsp
      rw [if_pos (List.prefix_append _ _)]
      by_cases hr : r = []
      · simp [hr]
      · rw [if_neg (by simpa using hr), h.none_under_file hs hr]
    · have hne' : p ≠ s := by
        rintro rfl
        exact hsp List.prefix_rfl
      rw [if_neg hsp, if_neg hne']

end IsTree

end Disk

end NoteArchive
