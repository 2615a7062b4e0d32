import NoteArchive.Proofs.Archive.Effect

/-!
# A batch once more

* `not_isOpen_after`: after a batch where nothing fails from outside, no note that has to go can be
  moved.
* `get?_ne_none_after`: no folder is left to be made.
* `same_of_run_again`: so the batch once more moves nothing and leaves the disk as it is.
-/

namespace NoteArchive

open Act Vault

variable {v : Vault} {b : Batch} {d₀ d d' : Disk} {m : Note × String}
  {moved failed : List (Note × String)} {names : List String} {t t' : Tally} {w w' : World}
  {label : String}

namespace Batch

section After

variable (hr : b.Ready v d₀) (hR : b.Reached v (v.notesOn d₀) d₀ moved d)
  (hJ : b.Judged v d₀ (v.notesOn d₀) moved d)

include hr hR hJ

/-- After the batch no note that has to go can be moved. -/
theorem not_isOpen_after (hm : m ∈ b.moves (v.notesOn d)) (hopen : v.IsOpen d m.2)
    (htakes : v.TakesNote d m.1) : False := by
  -- all would go to places where the batch moved something
  have hoccupied : ∀ m' ∈ moved, m'.2 ≠ m.2 := fun _ hm' => hR.ne_of_isOpen hm' hopen
  rcases of_mem_moves_after hr hR hm with ⟨hm₀, -⟩ | ⟨m', hm', hD, -⟩
  · have hopen₀ := isOpen_of_isOpen_after hr hR hm₀ hopen
    have htakes₀ := htakes.of_longestPath_eq hR.carries.longestPath_eq.symm
    obtain ⟨m', hm', hD, -⟩ := hJ.settled m hm₀ hopen₀ htakes₀
    exact hoccupied m' hm' hD
  · exact hoccupied m' hm' hD

/-- After the batch all folders are there that it makes, but for those under files. -/
theorem get?_ne_none_after (hlead : b.Leads (v.notesOn d₀) names) (hne : names ≠ [])
    (hacc : (v.spot names).Accepted d) (hclear : v.IsClear d names) :
    d.get? (v.place ++ names) ≠ none := by
  intro hnone
  have hl := lists_notesOn hr.isTree v
  have hclear₀ := (isClear_iff_of_leads hr hl hR hlead).1 hclear
  have hacc₀ := hacc.of_longestPath_eq hR.carries.longestPath_eq.symm
  rcases d₀.get?_cases (v.place ++ names) with hnone₀ | hfolder | hfile
  · have hbuilt := (folder_iff hr hl hJ hR _).2
      (Or.inr ⟨hnone₀, names, hne, rfl, hlead, hacc₀, hclear₀⟩)
    rw [hnone] at hbuilt
    cases hbuilt
  · have hkept := hR.carries.folder hfolder
    rw [hnone] at hkept
    cases hkept
  · exact hclear₀ names (List.prefix_refl names) hfile

end After

/-! ## The run -/

/-- Where a batch came to its end, the same batch once more moves nothing and leaves everything as
it is. -/
theorem same_of_run_again {label' : String} {w₁ w₁' : World}
    (hne : b.settings.targetFolder ≠ "") (ht : w.disk.IsTree)
    (hroot : w.disk.get? v.place = some .folder) (hw : w.Calm)
    (h : (b.run v label (v.notesOn w.disk)).runIn w = (.ok t, w')) (hsame : w₁.disk = w'.disk)
    (hw₁ : w₁.Calm)
    (h₁ : (b.run v label' (v.notesOn w₁.disk)).runIn w₁ = (.ok t', w₁')) :
    t'.moved = 0 ∧ ∀ p, w₁'.disk.get? p = w₁.disk.get? p := by
  obtain ⟨hr, moved, failed, hP, hJ⟩ :=
    judged_of_run hne ht hroot hw (lists_notesOn ht v) h
  rw [← hsame] at hP hJ
  have ht₁ := hP.carries.isTree
  have hR := hP.reached (List.append_nil _).symm hJ.isOpen
  obtain ⟨hr₁, moved₁, failed₁, hP₁, hJ₁⟩ :=
    judged_of_run hne ht₁ (hP.carries.folder hroot) hw₁ (lists_notesOn ht₁ v) h₁
  -- what the second batch moved would have gone to an open destination
  have hnone : moved₁ = [] := by
    rw [List.eq_nil_iff_forall_not_mem]
    intro m hm
    obtain ⟨hopen, htakes⟩ := hJ₁.isOpen m hm
    exact not_isOpen_after hr hR hJ (mem_moves_iff.2 (hP₁.plans_of_moved hm)) hopen htakes
  subst hnone
  refine ⟨hP₁.moved_eq, fun p => ?_⟩
  rcases hP₁.carries.elsewhere p (by simp) with heq | ⟨hfree, hfolder, hways⟩
  · exact heq
  · -- a new folder would lie in folders, so it would have been made before
    obtain ⟨names, hn, rfl, hlead, hacc⟩ := onWays_iff.1 hways
    have hclear : v.IsClear w₁.disk names := by
      intro more hp hfile
      obtain ⟨bytes, hb⟩ := hfile
      exact isClear_of_folder hP₁.carries.isTree hfolder more hp
        ⟨bytes, hP₁.carries.get?_of_some hb (by simp)⟩
    exact absurd hfree
      (get?_ne_none_after hr hR hJ (leads_of_leads_after hr hR hlead) hn hacc hclear)

end Batch

end NoteArchive
