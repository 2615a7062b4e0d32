import NoteArchive.Proofs.Disk.Carrying
import NoteArchive.Proofs.Vault.Folders

/-!
# Moving a file of a vault

* `checkMove`: what a move looks at first.
* `runIn_move_cases`: what a move comes to, whatever fails from outside.  A move that ends well
  found the source there, the target free and the folder of the target there.
* `Vault.Movable`: when a move is possible.  `movable_of_move`, `runIn_move_of_movable`: exactly
  then it ends well, where nothing fails from outside.
* `fileMoved_of_move`: a file that is moved is then at its target.
-/

namespace NoteArchive.Vault

open Act

variable {v : Vault} {note : Note} {target : String}

/-! ## What a move comes to -/

theorem systemMove_cases {source goal : Spot} {w w' : World} {r : Except Failure Unit}
    (h : (systemMove source goal).runIn w = (r, w')) :
    (w.Calm → w'.Calm) ∧
      ((r = .ok () ∧ hasNull goal.text = false ∧
          w.disk.move source.place goal.place = .ok w'.disk) ∨
        ((∃ e, r = .error e) ∧ w'.disk = w.disk)) := by
  rw [systemMove] at h
  rcases runIn_bind_cases h with ⟨turn, w₁, hturn, h⟩ | ⟨e, hturn, he⟩
  · have hd : w₁.disk = w.disk := (within_takeTurn sameDisk_isFrame _).of_runIn hturn
    have hc : w.Calm → w₁.Calm := (within_takeTurn calm_isFrame _).of_runIn hturn
    -- a failure from outside comes before the system looks at the paths
    cases turn with
    | some i =>
      dsimp only at h
      split at h <;>
        · cases h
          exact ⟨hc, Or.inr ⟨⟨_, rfl⟩, hd⟩⟩
    | none =>
      dsimp only at h
      rw [runIn_ite] at h
      split at h
      · rw [runIn_throw_bind] at h
        cases h
        exact ⟨hc, Or.inr ⟨⟨_, rfl⟩, hd⟩⟩
      · next hnull =>
        rw [runIn_get_bind, hd] at h
        split at h
        · next disk hmove =>
          cases h
          exact ⟨hc, Or.inl ⟨rfl, by simpa using (not_or.1 hnull).2, hmove⟩⟩
        · cases h
          exact ⟨hc, Or.inr ⟨⟨_, rfl⟩, hd⟩⟩
  · exact ⟨(within_takeTurn calm_isFrame _).of_runIn hturn,
      Or.inr ⟨⟨e, he⟩, (within_takeTurn sameDisk_isFrame _).of_runIn hturn⟩⟩

theorem runIn_systemMove_of_calm {source goal : Spot} {w : World} (hw : w.Calm)
    (hs : hasNull source.text = false) (hg : hasNull goal.text = false) {d : Disk}
    (hd : w.disk.move source.place goal.place = .ok d) :
    (systemMove source goal).runIn w = (.ok (), { w with disk := d }) := by
  rw [systemMove, runIn_bind_of_ok (runIn_takeTurn_of_calm hw _)]
  dsimp only
  rw [runIn_ite, if_neg (by simp [hs, hg]), runIn_get_bind, hd]
  rfl

/-- What a move looks at before the system moves the file: the source, the target and the folder
of the target. -/
def checkMove (v : Vault) (note : Note) (target : String) (d : Disk) :
    Except Failure (Spot × Spot) := do
  let source ← v.resolve note.path
  let goal ← v.resolve target
  let there ← source.isThere d
  if there = false then throw (.file .noSource)
  let taken ← goal.isThere d
  if taken then throw (.file .targetTaken)
  let above ← (v.spot (Path.ofString target).parts.dropLast).isFolder d
  if above = false then throw (.file .noTargetFolder)
  return (source, goal)

theorem checkMove_eq_ok_iff {d : Disk} {s g : Spot} :
    v.checkMove note target d = .ok (s, g) ↔
      v.resolve note.path = .ok s ∧ v.resolve target = .ok g ∧ s.isThere d = .ok true ∧
        g.isThere d = .ok false ∧
        (v.spot (Path.ofString target).parts.dropLast).isFolder d = .ok true := by
  rw [checkMove]
  constructor
  · intro h
    -- the checks are taken apart in the order in which they are made
    obtain ⟨s', hs, h⟩ := Act.bind_eq_ok h
    obtain ⟨g', hg, h⟩ := Act.bind_eq_ok h
    obtain ⟨there, hst, h⟩ := Act.bind_eq_ok h
    cases there with
    | false => cases h
    | true =>
      obtain ⟨taken, hgt, h⟩ := Act.bind_eq_ok h
      cases taken with
      | true => cases h
      | false =>
        obtain ⟨above, ha, h⟩ := Act.bind_eq_ok h
        cases above with
        | false => cases h
        | true =>
          cases h
          exact ⟨hs, hg, hst, hgt, ha⟩
  · rintro ⟨hs, hg, hst, hgt, ha⟩
    rw [hs, hg]
    change (s.isThere d >>= _) = _
    rw [hst]
    change (g.isThere d >>= _) = _
    rw [hgt]
    change (Spot.isFolder _ d >>= _) = _
    rw [ha]
    rfl

theorem move_eq (v : Vault) (note : Note) (target : String) (w : World) :
    (v.move note target).runIn w =
      (do
        interrupt .move
        let w ← get
        let (source, goal) ← Act.ofExcept (v.checkMove note target w.disk)
        systemMove source goal
        tell (.record ⟨"vault", .debug, "移動成功: " ++ note.path ++ " -> " ++ target⟩)
        return ⟨(Path.ofString target).name, target, note.extension⟩ : Act Note).runIn w := by
  -- the checks do not touch the world, so each of them can be decided on its own
  rw [move, runIn_bind, runIn_bind]
  rcases (interrupt .move).runIn w with ⟨_ | _, w₁⟩
  · rfl
  dsimp only
  rw [runIn_get_bind, runIn_ofExcept_bind, runIn_ofExcept_bind, checkMove]
  rcases v.resolve note.path with e | s
  · rfl
  dsimp only
  rw [runIn_ofExcept_bind]
  rcases v.resolve target with e | g
  · rfl
  dsimp only
  rw [runIn_get_bind, runIn_ofExcept_bind]
  simp only [bind, Except.bind]
  rcases s.isThere w₁.disk with e | _ | _
  · rfl
  · rfl
  rcases g.isThere w₁.disk with e | _ | _
  · rfl
  · rcases (v.spot (Path.ofString target).parts.dropLast).isFolder w₁.disk with e | _ | _
    · rfl
    · rfl
    · rfl
  · rfl

/-- Either all checks pass and the system moves the source, or the disk stays as it is. -/
theorem runIn_move_cases {w w' : World} {r : Except Failure Note}
    (h : (v.move note target).runIn w = (r, w')) :
    (w.Calm → w'.Calm) ∧
      ((∃ n s g, r = .ok n ∧ v.checkMove note target w.disk = .ok (s, g) ∧
          hasNull g.text = false ∧ w.disk.move s.place g.place = .ok w'.disk) ∨
        ((∃ e, r = .error e) ∧ w'.disk = w.disk)) := by
  rw [move_eq] at h
  rcases runIn_bind_cases h with ⟨_, w₁, hturn, h⟩ | ⟨e, hturn, he⟩
  · have hd : w₁.disk = w.disk := (within_interrupt sameDisk_isFrame _).of_runIn hturn
    have hc : w.Calm → w₁.Calm := (within_interrupt calm_isFrame _).of_runIn hturn
    rw [runIn_get_bind, runIn_ofExcept_bind, hd] at h
    -- only the last step, that of the system, changes the disk
    rcases hcheck : v.checkMove note target w.disk with e | ⟨s, g⟩
    · rw [hcheck] at h
      cases h
      exact ⟨hc, Or.inr ⟨⟨_, rfl⟩, hd⟩⟩
    · rw [hcheck] at h
      rcases runIn_bind_cases h with ⟨_, w₂, hsys, h⟩ | ⟨e, hsys, he⟩
      · obtain ⟨hc₂, hcases⟩ := systemMove_cases hsys
        cases h
        rcases hcases with ⟨-, hnull, hmove⟩ | ⟨⟨e, he⟩, -⟩
        · rw [hd] at hmove
          exact ⟨fun hw => hc₂ (hc hw), Or.inl ⟨_, s, g, rfl, rfl, hnull, hmove⟩⟩
        · cases he
      · obtain ⟨hc₂, hcases⟩ := systemMove_cases hsys
        rcases hcases with ⟨hok, -, -⟩ | ⟨-, hd₂⟩
        · cases hok
        · exact ⟨fun hw => hc₂ (hc hw), Or.inr ⟨⟨e, he⟩, hd₂.trans hd⟩⟩
  · exact ⟨(within_interrupt calm_isFrame _).of_runIn hturn,
      Or.inr ⟨⟨e, he⟩, (within_interrupt sameDisk_isFrame _).of_runIn hturn⟩⟩

/-! ## On a tree -/

/-- What a move asks for: both paths stay inside the vault and the system takes them, something is
at the source, and the target is a free name in a folder, which is not in the source itself. -/
structure Movable (v : Vault) (d : Disk) (source target : String) : Prop where
  sourceInside : isVaultRelative source = true
  targetInside : isVaultRelative target = true
  sourceAccepted : (v.spot (Path.ofString source).parts).Accepted d
  targetAccepted : (v.spot (Path.ofString target).parts).Accepted d
  there : ∃ e, d.get? (v.placeOf source) = some e
  free : d.get? (v.placeOf target) = none
  folder : d.get? (v.placeOf target).dropLast = some .folder
  short : ∀ name ∈ (Path.ofString target).parts, Disk.isTooLong name = false
  notBelow : ¬ v.placeOf source <+: v.placeOf target

/-- The target of a move has a last name: without one it would be the vault, in which the source
is. -/
theorem Movable.exists_name {d : Disk} {source : String} (ht : d.IsTree)
    (h : v.Movable d source target) :
    ∃ up name, (Path.ofString target).parts = up ++ [name] ∧
      v.placeOf target = v.place ++ up ++ [name] ∧ d.get? (v.place ++ up) = some .folder ∧
      IsName name := by
  rcases List.eq_nil_or_concat' (Path.ofString target).parts with hnil | ⟨up, name, hup⟩
  · obtain ⟨e, he⟩ := h.there
    have hfree := h.free
    rw [placeOf, hnil, List.append_nil] at hfree
    rw [placeOf, ht.none_under_none hfree] at he
    cases he
  · have hplace : v.placeOf target = v.place ++ up ++ [name] := by
      rw [placeOf, hup, List.append_assoc]
    have hlast : name ∈ (Path.ofString target).parts := by simp [hup]
    have hfolder := h.folder
    rw [hplace, List.dropLast_concat] at hfolder
    exact ⟨up, name, hup, hplace, hfolder,
      isName_of_accepted h.targetAccepted (Path.isVaultRelative_iff.1 h.targetInside).2 hlast
        (Path.isPart_of_mem_parts hlast) (h.short name hlast)⟩

/-- The checks pass, and the system takes the target and moves the source, exactly where a move is
possible. -/
theorem movable_iff {d : Disk} (ht : d.IsTree) :
    v.Movable d note.path target ↔
      ∃ s g d', v.checkMove note target d = .ok (s, g) ∧ hasNull g.text = false ∧
        d.move s.place g.place = .ok d' := by
  constructor
  · intro h
    obtain ⟨up, name, hup, hplace, hfolder, hname⟩ := h.exists_name ht
    have hparts : ∀ n ∈ (Path.ofString target).parts, Path.IsPart n :=
      fun n => Path.isPart_of_mem_parts
    have habove : (v.spot up).Accepted d := by
      have hacc := h.targetAccepted
      by_cases hn : up = []
      · rw [hn]
        exact accepted_root hparts hacc
      · rw [hup] at hacc
        exact accepted_of_append hn hacc
    obtain ⟨d', hd⟩ : ∃ d', d.move (v.placeOf note.path) (v.placeOf target) = .ok d' :=
      ⟨_, if_neg fun hp => h.notBelow (List.isPrefixOf_iff_prefix.1 hp)⟩
    refine ⟨v.spot (Path.ofString note.path).parts, v.spot (Path.ofString target).parts, d', ?_,
      h.targetAccepted.no_null, hd⟩
    rw [checkMove_eq_ok_iff, hup, List.dropLast_concat, ← hup]
    refine ⟨resolve_eq_ok_iff.2 ⟨h.sourceInside, rfl⟩,
      resolve_eq_ok_iff.2 ⟨h.targetInside, rfl⟩, ?_, ?_, ?_⟩
    · exact (Spot.isThere_eq_true_iff ht).2 ⟨h.sourceAccepted, h.there⟩
    · exact Spot.isThere_eq_false ht h.targetAccepted hplace hfolder hname.short h.free
    · exact (Spot.isFolder_eq_true_iff ht).2 ⟨habove, hfolder⟩
  · rintro ⟨s, g, d', hcheck, hnull, hmove⟩
    obtain ⟨hs, hg, hst, hgt, habove⟩ := checkMove_eq_ok_iff.1 hcheck
    obtain ⟨hsin, rfl⟩ := resolve_eq_ok_iff.1 hs
    obtain ⟨hgin, rfl⟩ := resolve_eq_ok_iff.1 hg
    obtain ⟨hsacc, hthere⟩ := (Spot.isThere_eq_true_iff ht).1 hst
    obtain ⟨-, hfolder⟩ := (Spot.isFolder_eq_true_iff ht).1 habove
    obtain ⟨hgacc, hfree⟩ := (Spot.of_isThere_eq_false ht hgt).resolve_left (by simp [hnull])
    -- without a last name the target would be its own folder, where nothing is
    rcases List.eq_nil_or_concat' (Path.ofString target).parts with hnil | ⟨up, name, hup⟩
    · rw [hnil] at hfree hfolder
      cases hfree.symm.trans hfolder
    rw [hup, List.dropLast_concat] at hfolder
    have hplace : v.placeOf target = v.place ++ up ++ [name] := by
      rw [placeOf, hup, List.append_assoc]
    refine ⟨hsin, hgin, hsacc, hgacc, hthere, hfree, ?_, fun n hn => ?_, (Disk.of_move hmove).1⟩
    · rw [hplace, List.dropLast_concat]
      exact hfolder
    · rw [hup, List.mem_append, List.mem_singleton] at hn
      rcases hn with hn | rfl
      · exact (ht.names hfolder n (List.mem_append_right _ hn)).short
      · exact Spot.short_of_isThere_eq_false ht hgacc hplace hfolder hgt

/-- A move that ends well was possible, and the system did it. -/
theorem movable_of_move {w w' : World} (ht : w.disk.IsTree) {n : Note}
    (h : (v.move note target).runIn w = (.ok n, w')) :
    v.Movable w.disk note.path target ∧
      w.disk.move (v.placeOf note.path) (v.placeOf target) = .ok w'.disk := by
  rcases (runIn_move_cases h).2 with ⟨n', s, g, -, hcheck, hnull, hmove⟩ | ⟨⟨e, he⟩, -⟩
  · obtain ⟨hs, hg, -⟩ := checkMove_eq_ok_iff.1 hcheck
    refine ⟨(movable_iff ht).2 ⟨s, g, _, hcheck, hnull, hmove⟩, ?_⟩
    rwa [place_of_resolve hs, place_of_resolve hg] at hmove
  · cases he

/-- A move that is possible ends well where nothing fails from outside. -/
theorem runIn_move_of_movable {w : World} (hw : w.Calm) (ht : w.disk.IsTree)
    (h : v.Movable w.disk note.path target) :
    ∃ n w', (v.move note target).runIn w = (.ok n, w') := by
  obtain ⟨s, g, d, hcheck, hnull, hmove⟩ := (movable_iff ht).1 h
  have hsource : hasNull s.text = false := by
    rw [(resolve_eq_ok_iff.1 (checkMove_eq_ok_iff.1 hcheck).1).2]
    exact h.sourceAccepted.no_null
  rw [move_eq, runIn_bind_of_ok (runIn_interrupt_of_calm hw _), runIn_get_bind, hcheck,
    runIn_ofExcept_bind]
  dsimp only
  rw [runIn_bind_of_ok (runIn_systemMove_of_calm hw hsource hnull hmove)]
  exact ⟨_, _, rfl⟩

/-- A file that is moved is then at its target, inside the vault, and the system took both paths. -/
theorem fileMoved_of_move {w w' : World} (ht : w.disk.IsTree)
    (hfile : w.disk.IsFile (v.placeOf note.path)) {n : Note}
    (h : (v.move note target).runIn w = (.ok n, w')) :
    w.disk.FileMoved w'.disk (v.placeOf note.path) (v.placeOf target) ∧
      isVaultRelative target = true ∧ (v.spot (Path.ofString note.path).parts).Accepted w.disk ∧
      (v.spot (Path.ofString target).parts).Accepted w.disk := by
  obtain ⟨hm, hmove⟩ := movable_of_move ht h
  obtain ⟨up, name, -, hplace, hfolder, hname⟩ := hm.exists_name ht
  have hfree := hm.free
  refine ⟨⟨hfile, hfree, ?_, ?_, Disk.longestPath_of_move hmove⟩, hm.targetInside,
    hm.sourceAccepted, hm.targetAccepted⟩
  · exact ht.get?_move_file hfile (by simp [hplace]) hfree hmove
  · rw [hplace] at hmove hfree
    exact ht.move (Disk.isFile_ne_nil hfile) hname hfolder hfree hmove

/-- A file can be moved, where nothing fails from outside, to a free name in a folder that is
there, if the system takes the paths. -/
theorem runIn_move_of_free {w : World} (hw : w.Calm) (ht : w.disk.IsTree)
    (hsin : isVaultRelative note.path = true) (hfile : w.disk.IsFile (v.placeOf note.path))
    (hsacc : (v.spot (Path.ofString note.path).parts).Accepted w.disk)
    (hgin : isVaultRelative target = true)
    (hgacc : (v.spot (Path.ofString target).parts).Accepted w.disk) {up : List String}
    {name : String} (hup : (Path.ofString target).parts = up ++ [name])
    (hshort : Disk.isTooLong name = false)
    (habove : w.disk.get? (v.place ++ up) = some .folder)
    (hfree : w.disk.get? (v.placeOf target) = none) :
    ∃ n w', (v.move note target).runIn w = (.ok n, w') := by
  have hplace : v.placeOf target = v.place ++ up ++ [name] := by
    rw [placeOf, hup, List.append_assoc]
  have hthere : ∃ e, w.disk.get? (v.placeOf note.path) = some e := by
    obtain ⟨bytes, hb⟩ := hfile
    exact ⟨_, hb⟩
  refine runIn_move_of_movable hw ht
    ⟨hsin, hgin, hsacc, hgacc, hthere, hfree, ?_, fun n hn => ?_, fun hp => ?_⟩
  · rw [hplace, List.dropLast_concat]
    exact habove
  · rw [hup, List.mem_append, List.mem_singleton] at hn
    rcases hn with hn | rfl
    · exact (ht.names habove n (List.mem_append_right _ hn)).short
    · exact hshort
  · -- a file is not on the way to a name in a folder
    rw [hplace] at hp hfree
    rcases List.prefix_concat_iff.1 hp with he | hp
    · exact Disk.not_isFile_of_none hfree (he ▸ hfile)
    · exact ht.not_isFile_of_prefix habove hp hfile

end NoteArchive.Vault
