import NoteArchive.Proofs.Vault.Spot

/-!
# The files of a vault on a tree

* `Vault.IsNote`: a listed file with the names that lead to it.
* `mem_notesOn_iff`: exactly the files outside hidden folders are listed.
* `IsNote.placeOf_path`: the path of a listed file leads back to it.
* `notesOn_pairwise`: each file is listed once, in the order of the paths.
* `LooksAt`: where the listing looks: at all folders, and at all files below no hidden folder.
* `IsListable`, `isListable_iff`: the system takes all paths at which the listing looks.
* `of_notes`, `runIn_notes_of_turns`: so it is for the listing as an operation, if the system takes
  these paths and nothing fails from outside.
-/

namespace NoteArchive.Vault

open Act

variable {v : Vault} {d : Disk}

/-- A file of the vault with the folders that lead to it, none of which is hidden, and its name. -/
structure IsNote (v : Vault) (d : Disk) (n : Note) (up : List String) (name : String) : Prop where
  isFile : d.IsFile (v.place ++ (up ++ [name]))
  shown : up.any isHidden = false
  eq_ofPath : n = .ofPath name ("/".intercalate (up ++ [name]))

theorem noteAt_eq_some_iff {names : Place} {e : Entry} {n : Note} :
    noteAt names e = some n ↔
      ∃ up name bytes, names = up ++ [name] ∧ e = .file bytes ∧ up.any isHidden = false ∧
        n = .ofPath name ("/".intercalate (up ++ [name])) := by
  unfold noteAt
  constructor
  · intro h
    split at h
    · next bytes name hlast =>
      obtain ⟨up, rfl⟩ := List.getLast?_eq_some_iff.1 hlast
      rw [List.dropLast_concat] at h
      split at h
      · cases h
      · next hany =>
        cases h
        exact ⟨up, name, bytes, rfl, rfl, by simpa using hany, rfl⟩
    · cases h
  · rintro ⟨up, name, bytes, rfl, rfl, hshown, rfl⟩
    simp [hshown]

theorem mem_under_iff (ht : d.IsTree) {p names : Place} {e : Entry} :
    (names, e) ∈ d.under p ↔ names ≠ [] ∧ d.get? (p ++ names) = some e := by
  rw [Disk.under, List.mem_filterMap]
  constructor
  · rintro ⟨⟨q, e'⟩, hm, hq⟩
    dsimp only at hq
    split at hq
    · next hp =>
      cases hq
      obtain ⟨r, rfl⟩ := List.isPrefixOf_iff_prefix.1 hp.1
      rw [List.drop_left]
      exact ⟨by simpa using hp.2, (ht.mem_entries_iff.1 hm).2⟩
    · cases hq
  · rintro ⟨hn, he⟩
    refine ⟨(p ++ names, e), ht.mem_entries_iff.2 ⟨by simp [hn], he⟩, ?_⟩
    simp [hn]

/-- Exactly the files outside hidden folders are listed. -/
theorem mem_notesOn_iff (ht : d.IsTree) {n : Note} :
    n ∈ v.notesOn d ↔ ∃ up name, v.IsNote d n up name := by
  rw [notesOn, List.mem_mergeSort, List.mem_filterMap]
  constructor
  · rintro ⟨⟨names, e⟩, hm, hn⟩
    obtain ⟨up, name, bytes, rfl, rfl, hshown, rfl⟩ := noteAt_eq_some_iff.1 hn
    exact ⟨up, name, ⟨bytes, ((mem_under_iff ht).1 hm).2⟩, hshown, rfl⟩
  · rintro ⟨up, name, ⟨bytes, hb⟩, hshown, rfl⟩
    refine ⟨(up ++ [name], .file bytes), (mem_under_iff ht).2 ⟨by simp, hb⟩, ?_⟩
    exact noteAt_eq_some_iff.2 ⟨up, name, bytes, rfl, rfl, hshown, rfl⟩

namespace IsNote

variable {n : Note} {up : List String} {name : String}

theorem name_eq (h : v.IsNote d n up name) : n.name = name := by
  rw [h.eq_ofPath]
  rfl

theorem path_eq (h : v.IsNote d n up name) : n.path = "/".intercalate (up ++ [name]) := by
  rw [h.eq_ofPath]
  rfl

theorem isName (ht : d.IsTree) (h : v.IsNote d n up name) : ∀ m ∈ up ++ [name], IsName m := by
  obtain ⟨bytes, hb⟩ := h.isFile
  exact fun m hm => ht.names hb m (List.mem_append_right _ hm)

theorem isPart (ht : d.IsTree) (h : v.IsNote d n up name) :
    ∀ m ∈ up ++ [name], Path.IsPart m :=
  fun m hm => Path.isPart_of_isName (h.isName ht m hm)

theorem ofString_path (ht : d.IsTree) (h : v.IsNote d n up name) :
    Path.ofString n.path = ⟨"", up ++ [name]⟩ := by
  rw [h.path_eq, Path.ofString_intercalate (h.isPart ht)]

/-- The path of a listed file leads back to it. -/
theorem placeOf_path (ht : d.IsTree) (h : v.IsNote d n up name) :
    v.placeOf n.path = v.place ++ (up ++ [name]) := by
  rw [placeOf, h.ofString_path ht]

theorem isVaultRelative_path (ht : d.IsTree) (h : v.IsNote d n up name) :
    isVaultRelative n.path = true := by
  rw [Path.isVaultRelative_iff, h.ofString_path ht]
  exact ⟨rfl, fun hm => (h.isName ht _ hm).ne_points rfl⟩

end IsNote

theorem isFile_of_mem_notesOn (ht : d.IsTree) {n : Note} (h : n ∈ v.notesOn d) :
    d.IsFile (v.placeOf n.path) := by
  obtain ⟨up, name, hn⟩ := (mem_notesOn_iff ht).1 h
  rw [hn.placeOf_path ht]
  exact hn.isFile

/-- Files of the vault with the same place have the same path. -/
theorem path_eq_of_placeOf_eq (ht : d.IsTree) {n n' : Note} (h : n ∈ v.notesOn d)
    (h' : n' ∈ v.notesOn d) (hp : v.placeOf n.path = v.placeOf n'.path) : n.path = n'.path := by
  obtain ⟨up, name, hn⟩ := (mem_notesOn_iff ht).1 h
  obtain ⟨up', name', hn'⟩ := (mem_notesOn_iff ht).1 h'
  rw [hn.placeOf_path ht, hn'.placeOf_path ht] at hp
  rw [hn.path_eq, hn'.path_eq, List.append_cancel_left hp]

/-- The name and the extension of a file are those of its path. -/
theorem extension_eq_of_mem_notesOn (ht : d.IsTree) {n : Note} (h : n ∈ v.notesOn d) :
    n.extension = extensionOf n.name := by
  obtain ⟨up, name, hn⟩ := (mem_notesOn_iff ht).1 h
  rw [hn.eq_ofPath]
  rfl

/-! ## Order -/

theorem under_pairwise (ht : d.IsTree) (p : Place) :
    (d.under p).Pairwise fun x y => x.1 ≠ y.1 := by
  have hkeys : d.entries.Pairwise fun x y => x.1 ≠ y.1 := List.pairwise_map.1 ht.nodup
  rw [Disk.under, List.pairwise_filterMap]
  refine hkeys.imp ?_
  rintro ⟨q, e⟩ ⟨q', e'⟩ hne x hx x' hx' heq
  dsimp only at hne hx hx'
  -- both places begin with `p`, and what is below it tells them apart
  split at hx
  · next hp =>
    split at hx'
    · next hp' =>
      cases hx
      cases hx'
      obtain ⟨r, rfl⟩ := List.isPrefixOf_iff_prefix.1 hp.1
      obtain ⟨r', rfl⟩ := List.isPrefixOf_iff_prefix.1 hp'.1
      rw [List.drop_left, List.drop_left] at heq
      exact hne (congrArg _ heq)
    · cases hx'
  · cases hx

theorem filterMap_noteAt_nodup (ht : d.IsTree) :
    (((d.under v.place).filterMap fun (names, e) => noteAt names e).map (·.path)).Nodup := by
  rw [List.Nodup, List.pairwise_map, List.pairwise_filterMap]
  refine (under_pairwise ht v.place).imp_of_mem ?_
  rintro ⟨names, e⟩ ⟨names', e'⟩ hm hm' hne n hn n' hn' hpath
  obtain ⟨up, name, bytes, rfl, rfl, hshown, rfl⟩ := noteAt_eq_some_iff.1 hn
  obtain ⟨up', name', bytes', rfl, rfl, hshown', rfl⟩ := noteAt_eq_some_iff.1 hn'
  have hnote : v.IsNote d _ up name := ⟨⟨bytes, ((mem_under_iff ht).1 hm).2⟩, hshown, rfl⟩
  have hnote' : v.IsNote d _ up' name' := ⟨⟨bytes', ((mem_under_iff ht).1 hm').2⟩, hshown', rfl⟩
  have heq := hnote.ofString_path ht
  rw [hpath, hnote'.ofString_path ht] at heq
  exact hne (Path.mk.inj heq).2.symm

/-- Each file is listed once, in the order of the paths. -/
theorem notesOn_pairwise (ht : d.IsTree) (v : Vault) :
    (v.notesOn d).Pairwise fun n n' => n.path < n'.path := by
  have hperm := List.mergeSort_perm
    ((d.under v.place).filterMap fun (names, e) => noteAt names e)
    fun a b => decide (a.path ≤ b.path)
  have hnodup : ((v.notesOn d).map (·.path)).Nodup :=
    (hperm.map (·.path)).nodup_iff.2 (filterMap_noteAt_nodup ht)
  have hsorted : (v.notesOn d).Pairwise fun n n' => decide (n.path ≤ n'.path) = true := by
    refine List.pairwise_mergeSort (fun a b c hab hbc => ?_) (fun a b => ?_) _
    · simp only [decide_eq_true_eq] at hab hbc ⊢
      exact String.le_trans hab hbc
    · simpa using String.le_total a.path b.path
  refine hsorted.imp₂ (fun n n' hle hne => ?_) (List.pairwise_map.1 hnodup)
  refine String.not_le.1 fun hge => hne ?_
  exact String.le_antisymm (by simpa using hle) hge

/-- A disk with its files in the order of their paths is listed as it stands. -/
theorem notesOn_of_pairwise
    (h : ((d.under v.place).filterMap fun (names, e) => noteAt names e).Pairwise
      fun n n' => n.path ≤ n'.path) :
    v.notesOn d = (d.under v.place).filterMap fun (names, e) => noteAt names e :=
  List.mergeSort_of_pairwise (h.imp fun hle => decide_eq_true hle)

/-! ## The listing as an operation -/

/-- The system takes all paths at which the listing looks. -/
def IsListable (v : Vault) (d : Disk) : Prop := ∀ s ∈ v.lookedAt d, d.takesPath s.text = true

/-- The listing looks at the vault, at its folders, and at its files below no hidden folder. -/
def LooksAt (v : Vault) (d : Disk) (names : Place) : Prop :=
  names = [] ∨ d.get? (v.place ++ names) = some .folder ∨
    (d.IsFile (v.place ++ names) ∧ names.dropLast.any isHidden = false)

theorem mem_lookedAt_iff (ht : d.IsTree) {s : Spot} :
    s ∈ v.lookedAt d ↔ ∃ names, v.LooksAt d names ∧ s = v.spot names := by
  rw [lookedAt, List.mem_cons, List.mem_map]
  constructor
  · rintro (rfl | ⟨⟨names, e⟩, hm, rfl⟩)
    · exact ⟨[], Or.inl rfl, rfl⟩
    · obtain ⟨hm, hlook⟩ := List.mem_filter.1 hm
      obtain ⟨-, hget⟩ := (mem_under_iff ht).1 hm
      refine ⟨names, Or.inr ?_, rfl⟩
      cases e with
      | folder => exact Or.inl hget
      | file bytes => exact Or.inr ⟨⟨bytes, hget⟩, by simpa [isLookedAt] using hlook⟩
  · rintro ⟨names, hlook, rfl⟩
    by_cases hne : names = []
    · exact Or.inl (congrArg v.spot hne)
    · refine Or.inr ?_
      rcases hlook.resolve_left hne with hfolder | ⟨⟨bytes, hbytes⟩, hshown⟩
      · exact ⟨(names, .folder), List.mem_filter.2 ⟨(mem_under_iff ht).2 ⟨hne, hfolder⟩, rfl⟩, rfl⟩
      · have hmem := (mem_under_iff ht).2 ⟨hne, hbytes⟩
        exact ⟨(names, .file bytes), List.mem_filter.2 ⟨hmem, by simp [isLookedAt, hshown]⟩, rfl⟩

theorem isListable_iff (ht : d.IsTree) :
    v.IsListable d ↔ ∀ names, v.LooksAt d names → d.takesPath (v.spot names).text = true := by
  constructor
  · exact fun h names hlook => h _ ((mem_lookedAt_iff ht).2 ⟨names, hlook, rfl⟩)
  · intro h s hs
    obtain ⟨names, hlook, rfl⟩ := (mem_lookedAt_iff ht).1 hs
    exact h names hlook

/-- The system takes the path of a file that is listed, if all can be listed. -/
theorem IsListable.takesPath (h : v.IsListable d) (ht : d.IsTree) {n : Note} {up : List String}
    {name : String} (hn : v.IsNote d n up name) :
    d.takesPath (v.spot (up ++ [name])).text = true := by
  refine (isListable_iff ht).1 h _ (Or.inr (Or.inr ⟨hn.isFile, ?_⟩))
  rw [List.dropLast_concat]
  exact hn.shown

/-- So the file can be reached, if no null character is in the path of the vault. -/
theorem IsListable.accepted (h : v.IsListable d) (ht : d.IsTree) (hnull : hasNull v.text = false)
    {n : Note} (hn : n ∈ v.notesOn d) : (v.spot (Path.ofString n.path).parts).Accepted d := by
  obtain ⟨up, name, hn⟩ := (mem_notesOn_iff ht).1 hn
  rw [hn.ofString_path ht]
  refine ⟨?_, h.takesPath ht hn⟩
  rw [hasNull_spot, hnull, Bool.false_or, List.any_eq_false]
  intro m hm
  simpa [hasNull] using (hn.isName ht m hm).no_null

/-- The first spot whose path the system does not take, if there is one. -/
theorem find?_lookedAt_cases (v : Vault) (d : Disk) :
    (v.IsListable d ∧ ((v.lookedAt d).find? fun s => !d.takesPath s.text) = none) ∨
      ∃ s ∈ v.lookedAt d, d.takesPath s.text = false ∧
        ((v.lookedAt d).find? fun s => !d.takesPath s.text) = some s := by
  rcases hfind : (v.lookedAt d).find? fun s => !d.takesPath s.text with _ | s
  · exact Or.inl ⟨fun s hs => by simpa using List.find?_eq_none.1 hfind s hs, hfind⟩
  · exact Or.inr
      ⟨s, List.mem_of_find?_eq_some hfind, by simpa using List.find?_some hfind, hfind⟩

/-- What the listing comes to after its turn, unless it failed from outside in it. -/
theorem runIn_notes_of_interrupt {w w₁ : World}
    (h : (interrupt .listing).runIn w = (.ok (), w₁)) :
    (v.IsListable w₁.disk ∧ v.notes.runIn w = (.ok (v.notesOn w₁.disk), w₁)) ∨
      ∃ s ∈ v.lookedAt w₁.disk, w₁.disk.takesPath s.text = false ∧
        v.notes.runIn w = (.error (.system (s.refusal .nameTooLong)), w₁) := by
  rw [notes, runIn_bind_of_ok h, runIn_get_bind]
  rcases v.find?_lookedAt_cases w₁.disk with ⟨hlists, hfind⟩ | ⟨s, hs, htakes, hfind⟩ <;> rw [hfind]
  · exact Or.inl ⟨hlists, rfl⟩
  · exact Or.inr ⟨s, hs, htakes, rfl⟩

/-- What it comes to where it does not fail from outside. -/
theorem runIn_notes_of_turns {w : World} (hturns : w.intrusions.turns .listing = []) :
    (v.IsListable w.disk ∧ v.notes.runIn w = (.ok (v.notesOn w.disk), w)) ∨
      ∃ s ∈ v.lookedAt w.disk, w.disk.takesPath s.text = false ∧
        v.notes.runIn w = (.error (.system (s.refusal .nameTooLong)), w) := by
  refine runIn_notes_of_interrupt ?_
  rw [runIn_interrupt, hturns]

theorem runIn_notes_of_calm {w : World} (hw : w.Calm) :
    (v.IsListable w.disk ∧ v.notes.runIn w = (.ok (v.notesOn w.disk), w)) ∨
      ∃ s ∈ v.lookedAt w.disk, w.disk.takesPath s.text = false ∧
        v.notes.runIn w = (.error (.system (s.refusal .nameTooLong)), w) :=
  runIn_notes_of_turns (by rw [hw]; rfl)

theorem IsListable.runIn_notes {w : World} (h : v.IsListable w.disk) (hw : w.Calm) :
    v.notes.runIn w = (.ok (v.notesOn w.disk), w) := by
  rcases runIn_notes_of_calm (v := v) hw with ⟨-, hrun⟩ | ⟨s, hs, htakes, -⟩
  · exact hrun
  · rw [h s hs] at htakes
    cases htakes

/-- The files are listed as they are on the disk, if the system takes their paths, unless the
listing fails from outside. -/
theorem of_notes {w w' : World} {r : Except Failure (List Note)}
    (h : v.notes.runIn w = (r, w')) :
    w'.disk = w.disk ∧ w'.clock = w.clock ∧ (w.Calm → w'.Calm) ∧
      ((v.IsListable w.disk ∧ r = .ok (v.notesOn w.disk)) ∨ ∃ e, r = .error e) := by
  rcases hturn : (interrupt .listing).runIn w with ⟨result, w₁⟩
  have hd : w₁.disk = w.disk := (within_interrupt sameDisk_isFrame .listing).of_runIn hturn
  have hc := (within_interrupt calm_isFrame .listing).of_runIn hturn
  have hclock := clock_of_interrupt hturn
  rcases result with e | _
  · rw [notes, runIn_bind_of_error hturn] at h
    cases h
    exact ⟨hd, hclock, hc, Or.inr ⟨e, rfl⟩⟩
  · rcases runIn_notes_of_interrupt (v := v) hturn with ⟨hlists, hrun⟩ | ⟨s, -, -, hrun⟩ <;>
      rw [h] at hrun <;> cases hrun
    · exact ⟨hd, hclock, hc, Or.inl ⟨hd ▸ hlists, by rw [hd]⟩⟩
    · exact ⟨hd, hclock, hc, Or.inr ⟨_, rfl⟩⟩

end NoteArchive.Vault
