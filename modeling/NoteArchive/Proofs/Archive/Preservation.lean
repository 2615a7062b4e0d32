import NoteArchive.Proofs.Archive.Whole
import NoteArchive.Proofs.Vault.Shown

/-!
# Nothing is lost

* `Batch.Preserves`: between two disks every file keeps its content, and all stay where they are
  but some notes that go to their destinations.
* `preserves_of_run`: so it is between the disks before and after a batch.
* `Operation.preserves_of_outcome`: so it is, apart from the settings file, between those before and
  after the work of an operation.
* `get?_of_outcome_of_place`: a file stays if no note at its place is to be moved.

All this holds whatever fails from outside.
-/

namespace NoteArchive

open Act Vault

variable {v : Vault} {b : Batch} {notes : List Note} {apart : Set Place}
  {moved : List (Note × String)} {σ : Place → Place} {d d' : Disk}

/-- The files of `d` that are not apart are those of `d'`, with the same content, and `σ` says
where each is.  It moves the notes in `moved`, each once and as it was decided, and no other file.
All folders stay. -/
structure Batch.Preserves (b : Batch) (v : Vault) (notes : List Note) (apart : Set Place)
    (moved : List (Note × String)) (σ : Place → Place) (d d' : Disk) : Prop where
  decided : ∀ m ∈ moved, m.1 ∈ notes ∧ isCandidate b.format m.1 = true ∧
    b.verdict m.1 = .move m.2
  nodup : (moved.map fun m => v.placeOf m.1.path).Nodup
  goes : ∀ m ∈ moved, ∃ s, v.resolve m.2 = .ok s ∧ σ (v.placeOf m.1.path) = s.place
  stays : ∀ p, (∀ m ∈ moved, v.placeOf m.1.path ≠ p) → σ p = p
  bijOn : Set.BijOn σ {p | d.IsFile p ∧ p ∉ apart} {p | d'.IsFile p ∧ p ∉ apart}
  content : ∀ p, d.IsFile p → p ∉ apart → d'.get? (σ p) = d.get? p
  folders : ∀ p, d.get? p = some .folder → d'.get? p = some .folder

/-- How many notes a result counts as moved.  A failure counts none. -/
def movedIn : Except Failure Tally → Nat
  | .ok t => t.moved
  | .error _ => 0

namespace Batch

theorem preserves_of_grows {allowed : Place → Prop} (h : d.Grows allowed d') :
    b.Preserves v notes ∅ [] id d d' where
  decided := by simp
  nodup := List.nodup_nil
  goes := by simp
  stays _ _ := rfl
  bijOn := by
    have hfiles : {p | d.IsFile p ∧ p ∉ (∅ : Set Place)} =
        {p | d'.IsFile p ∧ p ∉ (∅ : Set Place)} := by
      ext p
      simp [h.isFile_iff]
    rw [hfiles]
    exact Set.bijOn_id _
  content p hp _ := h.get?_of_isFile (h.isFile_iff.2 hp)
  folders p hp := h.get?_of_some hp

theorem Progress.preserves {t : Tally} {failed : List (Note × String)}
    (h : b.Progress v notes d notes t moved failed d') :
    b.Preserves v notes ∅ moved (Disk.carry (moved.map v.placesOf)) d d' where
  decided m hm := by
    obtain ⟨hn, hp⟩ := h.plans_of_moved hm
    exact ⟨hn, hp.candidate, hp.verdict⟩
  nodup := by
    have := h.carries.sources
    rwa [List.map_map] at this
  goes m hm := by
    refine ⟨v.spot (Path.ofString m.2).parts, resolve_eq_ok_iff.2 ⟨h.inside m hm, rfl⟩, ?_⟩
    exact Disk.carry_of_mem h.carries.sources (List.mem_map_of_mem (f := v.placesOf) hm)
  stays p hp := by
    refine Disk.carry_of_not_mem fun q hq => ?_
    obtain ⟨m, hm, rfl⟩ := List.mem_map.1 hq
    exact hp m hm
  bijOn := by
    simpa using h.carries.bijOn_carry
  content p hp _ := h.carries.get?_carry hp
  folders p hp := h.carries.folder hp

/-- A batch keeps all files, whatever fails from outside. -/
theorem preserves_of_run {label : String} {w w' : World} (ht : w.disk.IsTree)
    (hl : Lists v w.disk notes) {r : Except Failure Tally}
    (h : (b.run v label notes).runIn w = (r, w')) :
    ∃ moved σ, b.Preserves v notes ∅ moved σ w.disk w'.disk ∧ movedIn r = moved.length := by
  rcases (run_cases ht hl h).2 with ⟨e, -, rfl, hg⟩ | ⟨t, moved, failed, rfl, hp⟩
  · exact ⟨[], id, preserves_of_grows hg, rfl⟩
  · exact ⟨moved, _, hp.preserves, hp.moved_eq⟩

/-! ## Apart from the settings file -/

/-- No note is the settings file, which is in a hidden folder. -/
theorem placeOf_path_ne_settingsFile (ht : d.IsTree) {n : Note} (hn : n ∈ v.notesOn d) :
    v.placeOf n.path ≠ v.settingsFile.place := by
  obtain ⟨up, name, hnote⟩ := (mem_notesOn_iff ht).1 hn
  rw [hnote.placeOf_path ht]
  intro heq
  have hparts : up ++ [name] = [".daily_note_mover"] ++ ["data.json"] :=
    List.append_cancel_left heq
  -- the folder of the settings file begins with a point, and hidden folders are not listed
  obtain ⟨rfl, -⟩ := List.append_inj' hparts rfl
  exact absurd hnote.shown (by decide)

/-- No note goes to the settings file, which has another extension. -/
theorem placeOf_destination_ne_settingsFile (ht : d.IsTree) {m : Note × String}
    (hn : m.1 ∈ v.notesOn d) (h : b.Plans m) : v.placeOf m.2 ≠ v.settingsFile.place := by
  intro heq
  have hlast := h.getLast?_placeOf (Path.isPart_of_isName (isName_of_mem_notesOn ht hn)) v
  rw [heq, settingsFile_place, List.getLast?_concat] at hlast
  have hname : m.1.name = "data.json" := (Option.some.inj hlast).symm
  have hext := extension_eq_of_mem_notesOn ht hn
  have hc := h.candidate
  rw [isCandidate, Bool.and_eq_true, decide_eq_true_iff, hext, hname] at hc
  exact absurd hc.1 (by decide +kernel)

theorem Lists.filter (h : Lists v d notes) (keep : Note → Bool) :
    Lists v d (notes.filter keep) where
  mem n hn := h.mem n (List.mem_of_mem_filter hn)
  nodup := h.nodup.filter _

/-- In a batch a file stays if no note at its place is to be moved. -/
theorem get?_of_run {label : String} {w w' : World} (ht : w.disk.IsTree)
    (hl : Lists v w.disk notes) {r : Except Failure Tally}
    (h : (b.run v label notes).runIn w = (r, w')) {p : Place} (hp : w.disk.IsFile p)
    (hstay : ∀ n ∈ notes, v.placeOf n.path = p → (b.verdict n).isMove = false) :
    w'.disk.get? p = w.disk.get? p := by
  obtain ⟨moved, σ, hkept, -⟩ := preserves_of_run ht hl h
  have hfixed : σ p = p := by
    refine hkept.stays p fun m hm heq => ?_
    obtain ⟨hmem, -, hverdict⟩ := hkept.decided m hm
    have hmove := hstay _ hmem heq
    rw [hverdict] at hmove
    cases hmove
  have hcontent := hkept.content p hp (Set.notMem_empty p)
  rwa [hfixed] at hcontent

/-- What a batch keeps after the settings file was written is kept apart from this file. -/
theorem Preserves.after_savedOn (ht : d.IsTree) {content : List UInt8}
    (hl : ∀ n ∈ notes, n ∈ v.notesOn d)
    (h : b.Preserves v notes ∅ moved σ (v.savedOn d content) d') :
    b.Preserves v (v.notesOn d) {v.settingsFile.place} moved σ d d' := by
  have hplans : ∀ m ∈ moved, m.1 ∈ v.notesOn d ∧ b.Plans m := by
    intro m hm
    obtain ⟨hn, hc, hv⟩ := h.decided m hm
    exact ⟨hl _ hn, hc, hv⟩
  have hfixed : σ v.settingsFile.place = v.settingsFile.place :=
    h.stays _ fun m hm => placeOf_path_ne_settingsFile ht (hplans m hm).1
  -- no file comes to the place of the settings file
  have hleaves : ∀ p, p ≠ v.settingsFile.place → σ p ≠ v.settingsFile.place := by
    intro p hp
    by_cases hs : ∃ m ∈ moved, v.placeOf m.1.path = p
    · obtain ⟨m, hm, rfl⟩ := hs
      obtain ⟨s, hs, hgo⟩ := h.goes m hm
      rw [hgo, place_of_resolve hs]
      exact placeOf_destination_ne_settingsFile ht (hplans m hm).1 (hplans m hm).2
    · rwa [h.stays p fun m hm he => hs ⟨m, hm, he⟩]
  have hfile : ∀ {p}, p ≠ v.settingsFile.place →
      ((v.savedOn d content).IsFile p ↔ d.IsFile p) :=
    fun hp => isFile_savedOn_iff d content hp
  -- apart from the settings file the disks before and after the writing have the same files
  obtain ⟨hmaps, hinj, hsurj⟩ := h.bijOn
  refine ⟨fun m hm => ⟨(hplans m hm).1, (h.decided m hm).2⟩, h.nodup, h.goes, h.stays,
    ⟨?_, ?_, ?_⟩, ?_, ?_⟩
  · rintro p ⟨hp, hne⟩
    exact ⟨(hmaps ⟨(hfile hne).2 hp, Set.notMem_empty p⟩).1, hleaves p hne⟩
  · rintro p ⟨hp, hne⟩ q ⟨hq, hne'⟩ heq
    exact hinj ⟨(hfile hne).2 hp, Set.notMem_empty p⟩ ⟨(hfile hne').2 hq, Set.notMem_empty q⟩ heq
  · rintro q ⟨hq, hne⟩
    obtain ⟨p, ⟨hp, -⟩, rfl⟩ := hsurj ⟨hq, Set.notMem_empty q⟩
    have hp' : p ≠ v.settingsFile.place := by
      rintro rfl
      exact hne hfixed
    exact ⟨p, ⟨(hfile hp').1 hp, hp'⟩, rfl⟩
  · intro p hp hne
    rw [h.content p ((hfile hne).2 hp) (Set.notMem_empty p)]
    exact get?_savedOn_of_isFile content hp hne
  · exact fun p hp => h.folders p (folder_savedOn content hp)

theorem preserves_self (d : Disk) : b.Preserves v notes apart [] id d d where
  decided := by simp
  nodup := List.nodup_nil
  goes := by simp
  stays _ _ := rfl
  bijOn := Set.bijOn_id _
  content _ _ _ := rfl
  folders _ hp := hp

end Batch

namespace Operation

variable {op : Operation}

/-- The settings with which the work of an operation is done.  Where they cannot be read there is
no work. -/
def settingsFor (v : Vault) (around : Nat) (d : Disk) : Settings :=
  match v.settingsOn d (around + 3) with
  | .ok loaded => loaded.settings.validated
  | .error _ => .usual

/-- The work of an operation keeps all files but the settings file. -/
theorem preserves_of_outcome {around : Nat} {day : Date} {calm : Prop}
    {r : Except Failure Tally} (ht : d.IsTree) (h : op.Outcome v around day calm d r d') :
    ∃ moved σ, (batch (settingsFor v around d) day).Preserves v (v.notesOn d)
      {v.settingsFile.place} moved σ d d' ∧ movedIn r = moved.length := by
  cases h with
  | unread => exact ⟨[], id, Batch.preserves_self d, rfl⟩
  | @unlisted e content hroot =>
    have hp : (batch (settingsFor v around d) day).Preserves v [] ∅ [] id
        (v.savedOn d content) (v.savedOn d content) := Batch.preserves_self _
    exact ⟨[], id, hp.after_savedOn ht (by simp), rfl⟩
  | @ran loaded w w' r hroot hacc hload hdisk hcalm hrun =>
    have ht' : w.disk.IsTree := hdisk ▸ isTree_savedOn ht hroot _
    -- the batch began on the disk with the settings written, which lists the same files
    obtain ⟨moved, σ, hp, hcount⟩ := Batch.preserves_of_run ht'
      ((Batch.lists_notesOn ht' v).filter _) hrun
    have hs : settingsFor v around d = loaded.settings.validated := by
      rw [settingsFor, hload]
    rw [hdisk, notesOn_savedOn ht hroot] at hp
    rw [hs]
    exact ⟨moved, σ, hp.after_savedOn ht fun n hn => List.mem_of_mem_filter hn, hcount⟩

/-- In an operation a file stays if it is not the settings file and no note at its place with which
the operation is concerned is to be moved. -/
theorem get?_of_outcome_of_place {around : Nat} {day : Date} {calm : Prop}
    {r : Except Failure Tally} (ht : d.IsTree) (h : op.Outcome v around day calm d r d')
    {p : Place} (hp : d.IsFile p) (hne : p ≠ v.settingsFile.place)
    (hstay : ∀ loaded, v.settingsOn d (around + 3) = .ok loaded → ∀ n ∈ v.notesOn d,
      op.concerns n = true → v.placeOf n.path = p →
        ((batch loaded.settings.validated day).verdict n).isMove = false) :
    d'.get? p = d.get? p := by
  cases h with
  | unread => rfl
  | unlisted hroot => exact get?_savedOn_of_isFile _ hp hne
  | @ran loaded w w' r hroot hacc hload hdisk hcalm hrun =>
    have ht' : w.disk.IsTree := hdisk ▸ isTree_savedOn ht hroot _
    have hsaved : w.disk.get? p = d.get? p := hdisk ▸ get?_savedOn_of_isFile _ hp hne
    have hp' : w.disk.IsFile p := by rwa [Disk.IsFile, hsaved]
    rw [← hsaved]
    refine Batch.get?_of_run ht' ((Batch.lists_notesOn ht' v).filter _) hrun hp' fun n hn => ?_
    obtain ⟨hn, hconcerns⟩ := List.mem_filter.1 hn
    rw [hdisk, notesOn_savedOn ht hroot] at hn
    exact hstay _ hload n hn hconcerns

end Operation

/-- How many notes the result of a run counts as moved.  Without a result it counts none. -/
def movedInRun : Except Failure (Option Tally) → Nat
  | .ok (some t) => t.moved
  | _ => 0

/-- Whatever fails from outside, no file is lost, written over, doubled or changed by a batch of
all files of a vault, nor by a run of an operation, apart from its settings file.  The files that
are counted as moved were to be moved, and are at their destinations. -/
theorem nothing_is_lost (v : Vault) (w : World) (ht : w.disk.IsTree) :
    (∀ (b : Batch) (label : String), ∃ moved σ,
      b.Preserves v (v.notesOn w.disk) ∅ moved σ w.disk
          ((b.run v label (v.notesOn w.disk)).runIn w).2.disk ∧
        movedIn ((b.run v label (v.notesOn w.disk)).runIn w).1 = moved.length) ∧
    ∀ (op : Operation) (today : Option Date) (verbose : Bool) (around : Nat), ∃ moved σ,
      (Operation.batch (Operation.settingsFor v around w.disk)
          (Operation.day today (Operation.clockAt verbose w.clock))).Preserves v
        (v.notesOn w.disk) {v.settingsFile.place} moved σ w.disk
          ((op.run v today verbose around).runIn w).2.disk ∧
        movedInRun ((op.run v today verbose around).runIn w).1 = moved.length := by
  constructor
  · intro b label
    rcases hrun : (b.run v label (v.notesOn w.disk)).runIn w with ⟨r, w'⟩
    exact Batch.preserves_of_run ht (Batch.lists_notesOn ht v) hrun
  · intro op today verbose around
    rcases hrun : (op.run v today verbose around).runIn w with ⟨r, w'⟩
    rcases Operation.run_cases ht hrun with ⟨⟨e, rfl⟩, hd⟩ | ⟨result, rfl, hout⟩
    · dsimp only
      rw [hd]
      exact ⟨[], id, Batch.preserves_self w.disk, rfl⟩
    · obtain ⟨moved, σ, hp, hcount⟩ := Operation.preserves_of_outcome ht hout
      refine ⟨moved, σ, hp, ?_⟩
      rw [← hcount]
      cases result <;> rfl

theorem nothing_is_lost_of_one_note :
    let v : Vault := ⟨⟨"/", ["v"]⟩, ["v"]⟩
    let w : World := .ofDisk
      { entries := [(["v"], .folder), (["v", "05-03-2021.md"], .file [97])] }
    let b := Operation.batch .usual ⟨2024, 1, 1⟩
    w.disk.IsTree ∧
      movedIn ((b.run v Batch.usualLabel (v.notesOn w.disk)).runIn w).1 = 1 ∧
      ∃ moved σ, b.Preserves v (v.notesOn w.disk) ∅ moved σ w.disk
          ((b.run v Batch.usualLabel (v.notesOn w.disk)).runIn w).2.disk ∧
        movedIn ((b.run v Batch.usualLabel (v.notesOn w.disk)).runIn w).1 = moved.length := by
  intro v w b
  have ht : w.disk.IsTree := by decide
  exact ⟨ht, by decide +kernel, (nothing_is_lost v w ht).1 b _⟩

end NoteArchive
