import NoteArchive.Archive.Plan
import NoteArchive.Proofs.DateFormat.Captured
import NoteArchive.Proofs.Vault.Listing

/-!
# The extension and the stem of a note

The name of a note is cut in three ways: the listing looks for its last point, the note takes its
extension off, and a date is read from a name without its `.md`.

* `extensionOf_eq_iff`: the extension of a name is what follows its last point, where something
  stands on both sides.
* `Note.stem_of_append`, `stemOfName_append`: what comes before `.md` is the stem.
* `isCandidate_iff`: a listed file is a candidate when its name matches, if the format stands for
  any text at all.

So the date of a candidate is read from the text that made it one.
-/

namespace NoteArchive

open DateFormat

/-! ## Extensions -/

/-- The last point of a name begins its extension if something stands on both sides of it. -/
theorem extensionOf_append {r t : List Char} (ht : '.' ∉ t) :
    extensionOf (String.ofList (r ++ '.' :: t)) =
      if r ≠ [] ∧ t ≠ [] then String.ofList t else "" := by
  have htail : ((r ++ '.' :: t).reverse.takeWhile (· ≠ '.')).reverse = t := by
    have hall : ∀ c ∈ t.reverse, decide (c ≠ '.') = true :=
      fun c hc => decide_eq_true (ne_of_mem_of_not_mem (List.mem_reverse.1 hc) ht)
    rw [List.reverse_append, List.reverse_cons, List.append_assoc, List.singleton_append,
      List.takeWhile_append_of_pos hall, List.takeWhile_cons_of_neg (by decide), List.append_nil,
      List.reverse_reverse]
  have hlength : t.length + 1 < (r ++ '.' :: t).length ↔ r ≠ [] := by
    rw [List.length_append, List.length_cons, ← List.length_pos_iff]
    omega
  simp only [extensionOf, String.toList_ofList, htail, hlength]

theorem extensionOf_eq_iff {name e : String} (he : e ≠ "") :
    extensionOf name = e ↔ ∃ r, r ≠ "" ∧ '.' ∉ e.toList ∧ name = r ++ "." ++ e := by
  constructor
  · intro h
    by_cases hpoint : '.' ∈ name.toList
    · -- the last point is the first one from the end
      obtain ⟨t, r, hsplit, ht⟩ := List.eq_append_cons_of_mem (List.mem_reverse.2 hpoint)
      have hname : name = String.ofList (r.reverse ++ '.' :: t.reverse) := by
        rw [← String.toList_inj, String.toList_ofList, ← List.reverse_inj, hsplit]
        simp
      rw [hname, extensionOf_append (by simpa using ht)] at h
      split at h
      · next hne =>
        subst h
        refine ⟨String.ofList r.reverse, by simpa using hne.1, by simpa using ht, ?_⟩
        rw [hname, ← String.toList_inj]
        simp
      · exact absurd h.symm he
    · rw [extensionOf_of_not_mem hpoint] at h
      exact absurd h.symm he
  · rintro ⟨r, hr, hpoint, rfl⟩
    have hname : r ++ "." ++ e = String.ofList (r.toList ++ '.' :: e.toList) := by
      rw [← String.toList_inj]
      simp
    rw [hname, extensionOf_append hpoint, if_pos ⟨by simpa using hr, by simpa using he⟩,
      String.ofList_toList]

theorem extensionOf_eq_md_iff {name : String} :
    extensionOf name = "md" ↔ ∃ r, r ≠ "" ∧ name = r ++ ".md" := by
  have hassoc : ∀ r : String, r ++ "." ++ "md" = r ++ ".md" := fun _ => String.append_assoc
  rw [extensionOf_eq_iff (by decide)]
  constructor
  · rintro ⟨r, hr, -, rfl⟩
    exact ⟨r, hr, hassoc r⟩
  · rintro ⟨r, hr, rfl⟩
    exact ⟨r, hr, by decide, (hassoc r).symm⟩

/-! ## Stems -/

theorem Note.stem_of_append {n : Note} {r : String} (hext : n.extension = "md")
    (hname : n.name = r ++ ".md") : n.stem = r := by
  have hlist : n.name.toList = r.toList ++ ['.', 'm', 'd'] := by
    rw [hname, String.toList_append]
    rfl
  have hsuffix : '.' :: n.extension.toList = ['.', 'm', 'd'] := by
    rw [hext]
    rfl
  unfold Note.stem
  dsimp only
  rw [hsuffix, hlist, if_pos ⟨by rw [hext]; decide, by simp⟩, List.length_append,
    Nat.add_sub_cancel, List.take_left, String.ofList_toList]

theorem stemOfName_append (r : String) : stemOfName (r ++ ".md") = r := by
  have hlist : (r ++ ".md").toList = r.toList ++ noteSuffix := String.toList_append
  unfold stemOfName
  dsimp only
  rw [hlist, if_pos (by simp), List.length_append, Nat.add_sub_cancel, List.take_left,
    String.ofList_toList]

/-! ## Candidates -/

section Candidate

variable {v : Vault} {d : Disk} {n : Note} {c : Compiled}

/-- A listed file with a name that matches is a candidate, if the format stands for any text at
all: a name that is nothing but `.md` has no extension. -/
theorem isCandidate_iff (ht : d.IsTree) (hn : n ∈ v.notesOn d) :
    isCandidate c n = true ↔ c.isMatch n.name = true ∧ c.pieces ≠ [] := by
  rw [isCandidate, Bool.and_eq_true, decide_eq_true_iff, Vault.extension_eq_of_mem_notesOn ht hn,
    extensionOf_eq_md_iff, and_comm]
  refine and_congr_right fun hmatch => ?_
  obtain ⟨xs, r, hname, hfits⟩ := Compiled.isMatch_iff.1 hmatch
  rw [Ne, ← hfits.eq_nil_iff]
  constructor
  · rintro ⟨r', hr', hname'⟩ rfl
    rw [hname', String.toList_append] at hname
    exact hr' (by simpa using List.append_cancel_right hname)
  · intro hr
    refine ⟨String.ofList r, by simpa using hr, ?_⟩
    rw [← String.toList_inj, hname]
    simp [noteSuffix]

/-- The name of a candidate is its stem with `.md`. -/
theorem name_eq_of_isCandidate (ht : d.IsTree) (hn : n ∈ v.notesOn d)
    (hc : isCandidate c n = true) : n.name = n.stem ++ ".md" := by
  obtain ⟨hext, -⟩ := Bool.and_eq_true_iff.1 hc
  have hmd : n.extension = "md" := of_decide_eq_true hext
  obtain ⟨r, -, hname⟩ := extensionOf_eq_md_iff.1 (Vault.extension_eq_of_mem_notesOn ht hn ▸ hmd)
  rw [Note.stem_of_append hmd hname, hname]

/-- Whether a listed file is a candidate is told by its name alone.  The date of a candidate is read
from the text in front of the `.md` of the name that matched, so that it is not missed for want of a
match. -/
theorem candidate_is_read_as_matched (htokens : c.tokens ≠ []) (ht : d.IsTree)
    (hn : n ∈ v.notesOn d) :
    (isCandidate c n = true ↔ c.isMatch n.name = true) ∧
    (isCandidate c n = true →
      n.stem ++ ".md" = n.name ∧ c.isMatch (n.stem ++ ".md") = true ∧
      (∀ name pattern, c.readDate n.stem ≠ .error (.mismatch name pattern)) ∧
      c.readDate n.stem = c.readDate (stemOfName n.name)) := by
  have hpieces : c.pieces ≠ [] := by
    intro hnil
    exact htokens (by rw [Compiled.tokens, hnil]; rfl)
  refine ⟨?_, fun hc => ?_⟩
  · rw [isCandidate_iff ht hn]
    exact and_iff_left hpieces
  · have hname := name_eq_of_isCandidate ht hn hc
    have hmatch : c.isMatch (n.stem ++ ".md") = true := by
      rw [← hname]
      exact ((isCandidate_iff ht hn).1 hc).1
    refine ⟨hname.symm, hmatch, fun name pattern hm => ?_, ?_⟩
    · obtain ⟨texts, htexts⟩ := Option.isSome_iff_exists.1 hmatch
      rw [String.toList_append] at htexts
      cases Compiled.isOfValues_of_readDate htexts hm
    · rw [hname, stemOfName_append]

end Candidate

/-- A file with two extensions lies beside the note, and one with nothing in front of the point
above it. -/
theorem candidate_is_read_as_matched_of_leap_day :
    let v : Vault := ⟨⟨"/", ["v"]⟩, ["v"]⟩
    let d : Disk :=
      { entries := [(["v"], .folder), (["v", ".md"], .file []), (["v", "a"], .folder),
          (["v", "a", "29-02-2024.md"], .file [97]),
          (["v", "a", "29-02-2024.md.md"], .file [98])] }
    let n : Note := ⟨"29-02-2024.md", "a/29-02-2024.md", "md"⟩
    ∃ c, compile? "DD-MM-YYYY" = some c ∧ c.tokens ≠ [] ∧ d.IsTree ∧ n ∈ v.notesOn d ∧
      isCandidate c n = true ∧ n.stem ++ ".md" = n.name ∧
      c.readDate (stemOfName n.name) = .ok ⟨2024, 2, 29⟩ ∧
      c.readDate n.stem = c.readDate (stemOfName n.name) := by
  intro v d n
  have hc : compile? "DD-MM-YYYY" = some (.ofParts "DD-MM-YYYY") := by decide +kernel
  have htokens : (Compiled.ofParts "DD-MM-YYYY").tokens ≠ [] := by decide +kernel
  have ht : d.IsTree := by decide
  have hn : n ∈ v.notesOn d :=
    (Vault.mem_notesOn_iff ht).2 ⟨["a"], "29-02-2024.md", ⟨[97], rfl⟩, rfl, by decide +kernel⟩
  have hmatch : (Compiled.ofParts "DD-MM-YYYY").isMatch n.name = true := by decide +kernel
  obtain ⟨hiff, hread⟩ := candidate_is_read_as_matched htokens ht hn
  obtain ⟨hname, -, -, hstem⟩ := hread (hiff.2 hmatch)
  exact ⟨_, hc, htokens, ht, hn, hiff.2 hmatch, hname, by decide +kernel, hstem⟩

end NoteArchive
