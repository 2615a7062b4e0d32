import NoteArchive.Proofs.Vault.Move

/-!
# What a move comes to

* `Disk.Moved`: what was at one place, with all that was under it, is at another one, and nothing
  else changed.
* `moved_of_move`: a move to a free name in a folder does this on a tree.
* `move_all_or_nothing`: a move does all of it or nothing, and it does it where it is possible.
-/

namespace NoteArchive

open Act Vault

namespace Disk

/-- What was at one place is at another one, with all that was under it, and nothing else
changed. -/
structure Moved (d d' : Disk) (source target : Place) : Prop where
  atTarget : ∀ rest, d'.get? (target ++ rest) = d.get? (source ++ rest)
  atSource : ∀ rest, d'.get? (source ++ rest) = none
  elsewhere : ∀ p, ¬ source <+: p → ¬ target <+: p → d'.get? p = d.get? p
  isTree : d'.IsTree
  longestPath_eq : d'.longestPath = d.longestPath

theorem moved_of_move {d d' : Disk} {source q : Place} {name : String} {e : Entry} (ht : d.IsTree)
    (hsource : d.get? source = some e) (hname : IsName name) (hq : d.get? q = some .folder)
    (hfree : d.get? (q ++ [name]) = none) (hd : d.move source (q ++ [name]) = .ok d') :
    d.Moved d' source (q ++ [name]) := by
  have hbelow : ¬ source <+: q ++ [name] := (of_move hd).1
  have hne : source ≠ [] := by
    rintro rfl
    exact hbelow List.nil_prefix
  have hview := ht.get?_move hne (by simp) hfree hd
  have hlong := longestPath_of_move hd
  refine ⟨fun rest => ?_, fun rest => ?_, fun p hs hg => ?_, ht.move hne hname hq hfree hd, hlong⟩
  · rw [hview, if_pos (List.prefix_append _ _), List.drop_left]
  · -- the source is not in its target, and the target, where nothing was, did not hold the source
    have hnot : ¬ q ++ [name] <+: source ++ rest := by
      intro hp
      rcases List.prefix_or_prefix_of_prefix hp (List.prefix_append source rest) with hp | hp
      · obtain ⟨more, rfl⟩ := hp
        rw [ht.none_under_none hfree] at hsource
        cases hsource
      · exact hbelow hp
    rw [hview, if_neg hnot, if_pos (List.prefix_append _ _)]
  · rw [hview, if_neg hg, if_neg hs]

end Disk

/-- Whatever fails, a move that ends with an error leaves the disk as it was.  A move that ends well
was possible, and took the source with all that was under it to the target, and nothing else.  And
where nothing fails from outside, a move that is possible ends well. -/
theorem move_all_or_nothing (v : Vault) (note : Note) (target : String) (w w' : World)
    (r : Except Failure Note) (ht : w.disk.IsTree)
    (h : (v.move note target).runIn w = (r, w')) :
    (∀ e, r = .error e → w'.disk = w.disk) ∧
      (∀ n, r = .ok n → v.Movable w.disk note.path target ∧
        w.disk.Moved w'.disk (v.placeOf note.path) (v.placeOf target)) ∧
      (w.Calm → v.Movable w.disk note.path target → ∃ n, r = .ok n) := by
  refine ⟨?_, ?_, fun hw hm => ?_⟩
  · rintro e rfl
    rcases (runIn_move_cases h).2 with ⟨n, s, g, hok, -⟩ | ⟨-, hd⟩
    · cases hok
    · exact hd
  · rintro n rfl
    obtain ⟨hm, hmove⟩ := movable_of_move ht h
    obtain ⟨up, name, -, hplace, hfolder, hname⟩ := hm.exists_name ht
    obtain ⟨e, he⟩ := hm.there
    have hfree := hm.free
    refine ⟨hm, ?_⟩
    rw [hplace] at hmove hfree ⊢
    exact Disk.moved_of_move ht he hname hfolder hfree hmove
  · obtain ⟨n, w₁, hrun⟩ := runIn_move_of_movable hw ht hm
    rw [h] at hrun
    exact ⟨n, congrArg Prod.fst hrun⟩

/-- A folder is moved with the file in it. -/
theorem move_of_folder :
    let v : Vault := ⟨⟨"/", ["v"]⟩, ["v"]⟩
    let w : World := .ofDisk
      { entries := [(["v"], .folder), (["v", "A"], .folder), (["v", "A", "n.md"], .file [97])] }
    w.disk.IsTree ∧ ∃ n w', (v.move ⟨"A", "A", ""⟩ "B").runIn w = (.ok n, w') ∧
      w'.disk.get? ["v", "B", "n.md"] = some (.file [97]) ∧
      ∀ rest, w'.disk.get? (["v", "A"] ++ rest) = none := by
  intro v w
  have ht : w.disk.IsTree := by decide
  have hA : v.placeOf "A" = ["v", "A"] := by decide +kernel
  have hB : v.placeOf "B" = ["v", "B"] := by decide +kernel
  have hm : v.Movable w.disk "A" "B" := by
    refine ⟨by decide +kernel, by decide +kernel, ⟨by decide +kernel, by decide +kernel⟩,
      ⟨by decide +kernel, by decide +kernel⟩, ⟨.folder, ?_⟩, ?_, ?_, by decide +kernel, ?_⟩
    · rw [hA]
      rfl
    · rw [hB]
      rfl
    · rw [hB]
      rfl
    · rw [hA, hB]
      decide
  rcases hrun : (v.move ⟨"A", "A", ""⟩ "B").runIn w with ⟨r, w'⟩
  obtain ⟨-, hok, hpossible⟩ := move_all_or_nothing v _ _ w w' r ht hrun
  obtain ⟨n, rfl⟩ := hpossible rfl hm
  obtain ⟨-, hmoved⟩ := hok n rfl
  rw [hA, hB] at hmoved
  exact ⟨ht, n, w', rfl, hmoved.atTarget ["n.md"], hmoved.atSource⟩

end NoteArchive
