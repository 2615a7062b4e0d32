import Mathlib.Data.List.Induction
import NoteArchive.Proofs.Disk.Growth

/-!
# A folder with all that lead to it

* `IsTree.ensureFolder_concat`, `IsTree.makeFolders_concat`: in a folder that is there another one
  is made, or is there already, or a file has its name.
* `IsTree.writeFile_concat`: a file is written in a folder that is there.
* `of_lookupFrom`: with short names a search ends too early only at a file.
* `IsTree.makeFolders_cases`: from anywhere a folder is made with all that lead to it, unless a
  file is on the way.
-/

namespace NoteArchive.Disk

variable {d : Disk} {p q : Place} {name : String}

/-! ## In a folder that is there -/

theorem ensureFolder_at (d : Disk) (p : Place) :
    d.ensureFolder (fun _ p => .ok p) p =
      match d.makeFolder p with
      | .ok d' => .ok d'
      | .error cause => if d.isFolder p then .ok d else .error cause := rfl

/-- A folder that may be there already is made in a folder that is there. -/
theorem IsTree.ensureFolder_concat (ht : d.IsTree) (hq : d.get? q = some .folder)
    (hs : isTooLong name = false) :
    (d.get? (q ++ [name]) = none ∧
        d.ensureFolder (fun _ p => .ok p) (q ++ [name]) =
          .ok (d.insert (q ++ [name]) .folder)) ∨
      (d.get? (q ++ [name]) = some .folder ∧
        d.ensureFolder (fun _ p => .ok p) (q ++ [name]) = .ok d) ∨
      (d.IsFile (q ++ [name]) ∧
        d.ensureFolder (fun _ p => .ok p) (q ++ [name]) = .error .alreadyExists) := by
  rw [ensureFolder_at]
  rcases hn : d.get? (q ++ [name]) with _ | e
  · rw [ht.makeFolder_eq_ok hq hs hn]
    exact Or.inl ⟨rfl, rfl⟩
  · have hmake : d.makeFolder (q ++ [name]) = .error .alreadyExists := by
      rw [makeFolder, ht.lookup_eq_found_iff.2 hn]
    rw [hmake]
    cases e with
    | folder =>
      have hfolder : d.isFolder (q ++ [name]) = true := ht.isFolder_iff.2 hn
      simp [hfolder]
    | file bytes =>
      have hfolder : d.isFolder (q ++ [name]) = false := by
        rw [Bool.eq_false_iff, Ne, ht.isFolder_iff, hn]
        simp
      simp [hfolder, IsFile, hn]

/-- The last folder is tried first, and those that lead to it are made where one is missing. -/
theorem makeFolders_append_singleton (d : Disk) (q : Place) (name : String) :
    d.makeFolders (q ++ [name]) =
      match d.ensureFolder (fun _ p => .ok p) (q ++ [name]) with
      | .ok d' => .ok d'
      | .error .missing =>
        match d.makeFolders q with
        | .error r => .error r
        | .ok d' => (d'.ensureFolder (fun _ p => .ok p) (q ++ [name])).mapError
            fun cause => ⟨cause, q ++ [name], d'⟩
      | .error cause => .error ⟨cause, q ++ [name], d⟩ := by
  rw [makeFolders, List.reverse_concat, ensureFoldersUp, List.reverse_cons, List.reverse_reverse]
  rfl

/-- A folder is made in one that is there without those that lead to it. -/
theorem IsTree.makeFolders_concat (ht : d.IsTree) (hq : d.get? q = some .folder)
    (hs : isTooLong name = false) :
    (d.get? (q ++ [name]) = none ∧
        d.makeFolders (q ++ [name]) = .ok (d.insert (q ++ [name]) .folder)) ∨
      (d.get? (q ++ [name]) = some .folder ∧ d.makeFolders (q ++ [name]) = .ok d) ∨
      (d.IsFile (q ++ [name]) ∧ ∃ r, d.makeFolders (q ++ [name]) = .error r ∧ r.disk = d) := by
  rw [makeFolders_append_singleton]
  rcases ht.ensureFolder_concat hq hs with ⟨hn, h⟩ | ⟨hf, h⟩ | ⟨hfile, h⟩ <;> rw [h]
  · exact Or.inl ⟨hn, rfl⟩
  · exact Or.inr (Or.inl ⟨hf, rfl⟩)
  · exact Or.inr (Or.inr ⟨hfile, _, rfl, rfl⟩)

/-- A file is written in a folder that is there, unless a folder has its name. -/
theorem IsTree.writeFile_concat (ht : d.IsTree) (hq : d.get? q = some .folder)
    (hs : isTooLong name = false) (bytes : List UInt8) :
    (d.get? (q ++ [name]) = some .folder ∧ d.writeFile (q ++ [name]) bytes = .error .isFolder) ∨
      (d.get? (q ++ [name]) ≠ some .folder ∧
        d.writeFile (q ++ [name]) bytes = .ok (d.putFile (q ++ [name]) bytes)) := by
  rcases hn : d.get? (q ++ [name]) with _ | _ | _
  · refine Or.inr ⟨by simp, ?_⟩
    have hfolder : d.isFolder (q ++ [name]).dropLast = true := by
      rw [List.dropLast_concat]
      exact ht.isFolder_iff.2 hq
    rw [writeFile, ht.lookup_missing hq hs hn]
    simp only [hfolder, if_true]
  · refine Or.inr ⟨by simp, ?_⟩
    rw [writeFile, ht.lookup_eq_found_iff.2 hn]
  · refine Or.inl ⟨rfl, ?_⟩
    rw [writeFile, ht.lookup_eq_found_iff.2 hn]

/-! ## From anywhere -/

/-- With short names a search ends too early only at a file. -/
theorem of_lookupFrom {rest : List String} (hs : ∀ name ∈ rest, isTooLong name = false) :
    d.lookupFrom q rest ≠ .nameTooLong ∧
      (d.lookupFrom q rest = .notFolder → ∃ front, front <+: rest ∧ d.IsFile (q ++ front)) := by
  induction rest generalizing q with
  | nil =>
    rw [lookupFrom]
    split <;> exact ⟨by simp, fun h => by cases h⟩
  | cons name rest ih =>
    rw [lookupFrom]
    split
    · exact ⟨by simp, fun h => by cases h⟩
    · next bytes hfile =>
      exact ⟨by simp, fun _ => ⟨[], List.nil_prefix, bytes, by rwa [List.append_nil]⟩⟩
    · rw [if_neg (by simp [hs name List.mem_cons_self])]
      obtain ⟨hshort, hfile⟩ := ih (q := q ++ [name]) fun n hn => hs n (List.mem_cons_of_mem _ hn)
      refine ⟨hshort, fun h => ?_⟩
      obtain ⟨front, hfront, hf⟩ := hfile h
      exact ⟨name :: front, List.cons_prefix_cons.2 ⟨rfl, hfront⟩, by simpa using hf⟩

/-- In a folder that is not there no folder is made.  Either one is missing that leads to it, or a
file is on the way. -/
theorem IsTree.ensureFolder_of_not_folder (ht : d.IsTree)
    (hs : ∀ n ∈ q ++ [name], isTooLong n = false) (hq : d.get? q ≠ some .folder) :
    (d.get? (q ++ [name]) = none ∧
        d.ensureFolder (fun _ p => .ok p) (q ++ [name]) = .error .missing) ∨
      ((∃ p, p <+: q ++ [name] ∧ d.IsFile p) ∧
        d.ensureFolder (fun _ p => .ok p) (q ++ [name]) = .error .notFolder) := by
  obtain ⟨hshort, hfile⟩ := of_lookupFrom (d := d) (q := []) hs
  have hnone : d.get? (q ++ [name]) = none := by
    rcases hp : d.get? (q ++ [name]) with _ | e
    · rfl
    · exact absurd (ht.folder_of_append hp (by simp)) hq
  have hfolder : d.isFolder (q ++ [name]) = false := by
    rw [Bool.eq_false_iff, Ne, ht.isFolder_iff, hnone]
    simp
  have hup : d.isFolder q = false := by
    rwa [Bool.eq_false_iff, Ne, ht.isFolder_iff]
  rw [ensureFolder_at, makeFolder]
  rcases hl : d.lookup (q ++ [name]) with e | _ | _ | _
  · rw [ht.lookup_eq_found_iff, hnone] at hl
    cases hl
  · refine Or.inl ⟨hnone, ?_⟩
    simp [hup, hfolder]
  · refine Or.inr ⟨?_, by simp [hfolder]⟩
    simpa using hfile hl
  · exact absurd hl hshort

theorem not_isFile_of_prefix_concat (hq : ∀ r, r <+: q → ¬ d.IsFile r)
    (hlast : ¬ d.IsFile (q ++ [name])) (r : Place) (hr : r <+: q ++ [name]) : ¬ d.IsFile r := by
  rcases List.prefix_concat_iff.1 hr with rfl | hr
  · exact hlast
  · exact hq r hr

/-- A folder is made with all that lead to it, unless a file is on the way. -/
theorem IsTree.makeFolders_cases (ht : d.IsTree) {p : Place} (hp : ∀ name ∈ p, IsName name) :
    ((∃ q, q <+: p ∧ d.IsFile q) ∧ ∃ r, d.makeFolders p = .error r) ∨
      ((∀ q, q <+: p → ¬ d.IsFile q) ∧
        ∃ d', d.makeFolders p = .ok d' ∧ d.Grows (· <+: p) d' ∧ d'.get? p = some .folder) := by
  induction p using List.reverseRecOn with
  | nil =>
    refine Or.inr ⟨fun q hq hfile => ?_, d, rfl, .refl, get?_nil d⟩
    exact isFile_ne_nil hfile (List.prefix_nil.1 hq)
  | append_singleton q name ih =>
    have hname : IsName name := hp name (by simp)
    have hshort : ∀ n ∈ q ++ [name], isTooLong n = false := fun n hn => (hp n hn).short
    by_cases hq : d.get? q = some .folder
    · have hway (hself : ¬ d.IsFile (q ++ [name])) :=
        not_isFile_of_prefix_concat (fun r => ht.not_isFile_of_prefix hq) hself
      rcases ht.makeFolders_concat hq hname.short with
        ⟨hn, hmake⟩ | ⟨hf, hmake⟩ | ⟨hfile, r, hmake, -⟩
      · refine Or.inr ⟨hway (not_isFile_of_none hn), _, hmake, ?_, get?_insert_self (by simp) hn _⟩
        exact .step .refl (List.prefix_refl _) hname hq hn
      · exact Or.inr ⟨hway (not_isFile_of_folder hf), d, hmake, .refl, hf⟩
      · exact Or.inl ⟨⟨_, List.prefix_refl _, hfile⟩, r, hmake⟩
    · rw [makeFolders_append_singleton]
      rcases ht.ensureFolder_of_not_folder hshort hq with ⟨hnone, h⟩ | ⟨hfile, h⟩ <;> rw [h]
      · -- the folders that lead to it come first, and then it is tried once more
        dsimp only
        rcases ih fun n hn => hp n (List.mem_append_left _ hn) with
          ⟨⟨r, hr, hfile⟩, refusal, hmake⟩ | ⟨hway, d', hmake, hg, hfolder⟩ <;> rw [hmake]
        · exact Or.inl ⟨⟨r, hr.trans (List.prefix_append _ _), hfile⟩, refusal, rfl⟩
        · refine Or.inr ⟨not_isFile_of_prefix_concat hway (not_isFile_of_none hnone), ?_⟩
          have hg' : d.Grows (· <+: q ++ [name]) d' :=
            hg.mono fun r hr => hr.trans (List.prefix_append _ _)
          dsimp only
          rcases (hg.isTree ht).ensureFolder_concat hfolder hname.short with
            ⟨hn, hlast⟩ | ⟨hf, hlast⟩ | ⟨hfile, -⟩
          · rw [hlast]
            refine ⟨_, rfl, ?_, get?_insert_self (by simp) hn _⟩
            exact .step hg' (List.prefix_refl _) hname hfolder hn
          · rw [hlast]
            exact ⟨d', rfl, hg', hf⟩
          · exact absurd (hg.isFile_iff.1 hfile) (not_isFile_of_none hnone)
      · exact Or.inl ⟨hfile, _, rfl⟩

end NoteArchive.Disk
