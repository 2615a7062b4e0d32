import NoteArchive.Proofs.Archive.Preservation
import NoteArchive.Proofs.DateFormat.OwnDate
import NoteArchive.Proofs.Settings.Validation

/-!
# The note of the day stays

* `ownName`: the name that a format writes for a day, as that of a note.
* `eq_of_readDate_stem`: a note of this name is read as one of this day, if it is read at all.
* `isMove_verdict_ownName`: so it is not to be moved on this day.
* `get?_of_outcome`: a file stays if no note of its name is to be moved.

At the end no run of an operation touches the notes of its day.
-/

namespace NoteArchive

open DateFormat Vault

variable {v : Vault} {b : Batch} {f : String} {today : Date} {n : Note} {d d' : Disk}

/-- The name that a format writes for a day, with the extension of a note. -/
def ownName (f : String) (today : Date) : String := render f today ++ ".md"

/-- The settings file has another extension. -/
theorem ownName_ne_settingsFile (f : String) (today : Date) : ownName f today ≠ "data.json" := by
  intro h
  have hlast := congrArg (fun s : String => s.toList.getLast?) h
  have hend : ".md".toList = ['.', 'm'] ++ ['d'] := rfl
  simp only [ownName, String.toList_append, hend] at hlast
  rw [← List.append_assoc, List.getLast?_concat] at hlast
  exact absurd hlast (by decide)

/-! ## Reading -/

/-- Where the only point of a name stands before `md`, the stem is all in front of it, or the name
is taken as a whole. -/
theorem stem_cases {r : String} (hr : '.' ∉ r.toList) (hn : n.name = r ++ ".md") :
    n.stem = r ∨ n.stem = n.name := by
  unfold Note.stem
  dsimp only
  split
  · next h =>
    left
    obtain ⟨cut, hcut⟩ := List.isSuffixOf_iff_suffix.1 h.2
    have hname : n.name.toList = r.toList ++ '.' :: ['m', 'd'] := by
      rw [hn, String.toList_append]
      rfl
    -- the point of the extension is the only one of the name
    obtain ⟨rfl, -, -⟩ :=
      (List.append_cons_inj_of_notMem hr (by decide)).1 (hname.symm.trans hcut.symm)
    rw [← hcut, List.length_append, Nat.add_sub_cancel, List.take_left, String.ofList_toList]
  · exact Or.inr rfl

/-- A name with a point is not read. -/
theorem not_readDate_of_point {c : Compiled} {stem : String} {date : Date}
    (hc : compile? f = some c) (hp : '.' ∈ stem.toList) : c.readDate stem ≠ .ok date := by
  intro h
  obtain rfl := ofParts_of_compile? hc
  obtain ⟨texts, hr⟩ := Compiled.exists_reading h
  exact not_isNameChar_point (hr.fits.isNameChar (fun _ => isSeparator_of_mem_pieces) _ hp)

/-- A note with the name of a day is read as one of this day, if it is read at all. -/
theorem eq_of_readDate_stem {c : Compiled} {date : Date} (hc : compile? f = some c)
    (hreal : today.IsReal) (hyear : 1000 ≤ today.year)
    (hshort : c.lastToken .year = some .yy → 1950 ≤ today.year ∧ today.year ≤ 2049)
    (hn : n.name = ownName f today) (h : c.readDate n.stem = .ok date) : date = today := by
  have hpoint : '.' ∉ (render f today).toList :=
    fun hm => not_isNameChar_point (isNameChar_of_mem_render hreal hm)
  rcases stem_cases hpoint hn with hs | hs <;> rw [hs] at h
  · exact eq_of_readDate_render hc hreal hyear hshort h
  · refine absurd h (not_readDate_of_point hc ?_)
    rw [hn, ownName, String.toList_append]
    exact List.mem_append_right _ (by decide)

/-- A note of the day is not to be moved. -/
theorem isMove_verdict_ownName (hc : compile? f = some b.format) (hreal : b.today.IsReal)
    (hyear : 1000 ≤ b.today.year)
    (hshort : b.format.lastToken .year = some .yy → 1950 ≤ b.today.year ∧ b.today.year ≤ 2049)
    (hn : n.name = ownName f b.today) : (b.verdict n).isMove = false := by
  unfold Batch.verdict
  cases hd : b.format.readDate n.stem with
  | error e => rfl
  | ok date =>
    dsimp only
    rw [if_pos (eq_of_readDate_stem hc hreal hyear hshort hn hd)]
    rfl

/-! ## Staying -/

/-- In an operation a file stays if it is not the settings file and no note of its name is to be
moved. -/
theorem Operation.get?_of_outcome {op : Operation} {around : Nat} {day : Date} {calm : Prop}
    {r : Except Failure Tally} (ht : d.IsTree) (h : op.Outcome v around day calm d r d')
    {p : Place} (hp : d.IsFile p) (hne : p ≠ v.settingsFile.place)
    (hstay : ∀ loaded, v.settingsOn d (around + 3) = .ok loaded → ∀ n : Note,
      p.getLast? = some n.name →
        ((batch loaded.settings.validated day).verdict n).isMove = false) :
    d'.get? p = d.get? p := by
  refine get?_of_outcome_of_place ht h hp hne fun loaded hload n hn _ heq => ?_
  have hlast := getLast?_placeOf_path ht hn
  rw [heq] at hlast
  exact hstay loaded hload n hlast

/-- No run of an operation touches the notes of its day, whatever the format leaves unread of
their names, and whatever fails from outside.  The last year decides which years can be written. -/
theorem own_notes_stay {f : String} {today : Date} (hf : isValid f = true) (hreal : today.IsReal)
    (hyear : 1000 ≤ today.year)
    (hshort : (compileResolved f).lastToken .year = some .yy →
      1950 ≤ today.year ∧ today.year ≤ 2049) :
    (∀ (b : Batch) (n : Note), b.format = compileResolved f → b.today = today →
      n.name = ownName f today → (b.verdict n).isMove = false) ∧
    ∀ (op : Operation) (v : Vault) (w : World) (given : Option Date) (verbose : Bool)
      (around : Nat), w.disk.IsTree →
      Operation.day given (Operation.clockAt verbose w.clock) = today →
      (∀ loaded, v.settingsOn w.disk (around + 3) = .ok loaded →
        loaded.settings.validated.dateFormat = f) →
      ∀ p, w.disk.IsFile p → p.getLast? = some (ownName f today) →
        ((op.run v given verbose around).runIn w).2.disk.get? p = w.disk.get? p := by
  have hc : compile? f = some (compileResolved f) := by
    have hresolved := compile?_resolve f
    rwa [DateFormat.resolve, if_pos hf] at hresolved
  have hverdict : ∀ (b : Batch) (n : Note), b.format = compileResolved f → b.today = today →
      n.name = ownName f today → (b.verdict n).isMove = false := by
    rintro b n hformat rfl hn
    rw [← hformat] at hc hshort
    exact isMove_verdict_ownName hc hreal hyear hshort hn
  refine ⟨hverdict, fun op v w given verbose around ht hday hformat p hp hlast => ?_⟩
  rcases hrun : (op.run v given verbose around).runIn w with ⟨r, w'⟩
  rcases Operation.run_cases ht hrun with ⟨-, hd⟩ | ⟨result, -, hout⟩
  · exact congrArg (·.get? p) hd
  · have hne : p ≠ v.settingsFile.place := by
      rintro rfl
      rw [settingsFile_place, List.getLast?_concat] at hlast
      exact ownName_ne_settingsFile f today (Option.some.inj hlast).symm
    refine Operation.get?_of_outcome ht hout hp hne fun loaded hload n hn => ?_
    refine hverdict _ n ?_ hday ?_
    · exact congrArg compileResolved (hformat loaded hload)
    · exact Option.some.inj (hn.symm.trans hlast)

/-- The note of the day is found and skipped. -/
theorem own_notes_stay_when_found :
    let f := "MMMM-of-DDYY"
    let v : Vault := ⟨⟨"/", ["v"]⟩, ["v"]⟩
    let w : World := .ofDisk
      { entries := [(["v"], .folder), (["v", ".daily_note_mover"], .folder),
          (["v", ".daily_note_mover", "data.json"],
            .file (Text.Utf8.encode "\x7b\"date_format\": \"MMMM-of-DDYY\"\x7d".toList)),
          (["v", "June--0124.md"], .file [97])] }
    let archive : Act (Option Tally) := Operation.archive.run v (some ⟨2024, 6, 1⟩) false
    w.disk.IsTree ∧ ownName f ⟨2024, 6, 1⟩ = "June--0124.md" ∧
      (archive.runIn w).1.toOption.join.map (·.skipped) = some 1 ∧
      (archive.runIn w).2.disk.get? ["v", "June--0124.md"] =
        w.disk.get? ["v", "June--0124.md"] := by
  intro f v w archive
  have ht : w.disk.IsTree := by decide
  have hname : ownName f ⟨2024, 6, 1⟩ = "June--0124.md" := by decide +kernel
  have hformat : ((v.settingsOn w.disk 3).toOption.map fun loaded =>
      loaded.settings.validated.dateFormat) = some f := by decide +kernel
  refine ⟨ht, hname, by decide +kernel, ?_⟩
  have hget : w.disk.get? ["v", "June--0124.md"] = some (.file [97]) := by decide +kernel
  have hlast : ["v", "June--0124.md"].getLast? = some (ownName f ⟨2024, 6, 1⟩) := by
    rw [hname]
    rfl
  refine (own_notes_stay (by decide +kernel) (by decide) (by decide) fun _ => by decide).2 .archive
    v w (some ⟨2024, 6, 1⟩) false 0 ht rfl ?_ _ ⟨_, hget⟩ hlast
  intro loaded hload
  rw [hload] at hformat
  exact Option.some.inj hformat

end NoteArchive
