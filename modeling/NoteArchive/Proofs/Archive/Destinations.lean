import NoteArchive.Archive.Plan
import NoteArchive.Proofs.Calendar.Digits
import NoteArchive.Proofs.Vault.Listing

/-!
# Where the notes of a batch go

* `Batch.moves`: the notes of a batch that have to go, each with its destination.
* `parts_destinationFor`: the names that lead to a destination: those of the target folder, the
  folders of the date, and the name of the note.
* `destination_unique`: notes of one name go to one destination.
* `folderOf`: the folder of a destination.  `Batch.folders`: the folders that a batch makes.
-/

namespace NoteArchive

/-- The folders of a date in the target folder. -/
def Settings.dateFolders (s : Settings) (date : Date) : List String :=
  if s.useSubfolders then [toString date.year, String.ofList (Date.padded 2 date.month)] else []

theorem toString_eq_ofList (n : Nat) : toString n = String.ofList (Nat.toDigits 10 n) :=
  Nat.toString_eq_ofList_toDigits

theorem digits_of_mem_dateFolders {s : Settings} {date : Date} {name : String}
    (h : name ∈ s.dateFolders date) :
    ∃ cs : List Char, name = String.ofList cs ∧ cs ≠ [] ∧ ∀ c ∈ cs, c.isDigit = true := by
  rw [Settings.dateFolders] at h
  split at h
  · rcases List.mem_cons.1 h with rfl | h
    · exact ⟨_, toString_eq_ofList _, Nat.toDigits_ne_nil, fun c hc =>
        Nat.isDigit_of_mem_toDigits (by decide) (by decide) hc⟩
    · rw [List.mem_singleton.1 h]
      exact ⟨_, rfl, Date.padded_ne_nil _ _, fun c hc => Date.isDigit_of_mem_padded hc⟩
  · cases h

theorem isPart_of_digits {cs : List Char} (hne : cs ≠ [])
    (h : ∀ c ∈ cs, c.isDigit = true) : Path.IsPart (String.ofList cs) := by
  constructor
  · intro he
    exact hne (by simpa using congrArg String.toList he)
  · exact ofList_ne_of_digits h ⟨'.', by decide, rfl⟩
  · rw [String.toList_ofList]
    exact fun hm => absurd (h _ hm) (by decide)

theorem isPart_of_mem_dateFolders {s : Settings} {date : Date} {name : String}
    (h : name ∈ s.dateFolders date) : Path.IsPart name := by
  obtain ⟨cs, rfl, hne, hd⟩ := digits_of_mem_dateFolders h
  exact isPart_of_digits hne hd

theorem length_dateFolders (s : Settings) (date date' : Date) :
    (s.dateFolders date).length = (s.dateFolders date').length := by
  simp only [Settings.dateFolders]
  split <;> rfl

/-- The folders of a date have names that a folder can have. -/
theorem isName_of_mem_dateFolders {s : Settings} {date : Date} (hd : date.IsReal) {name : String}
    (h : name ∈ s.dateFolders date) : IsName name := by
  obtain ⟨hy, hy', hm, hm', -, -⟩ := hd
  rw [Settings.dateFolders] at h
  -- with subfolders the names are the year and the month, without them there are none
  split at h
  · rcases List.mem_cons.1 h with rfl | h
    · rw [toString_eq_ofList]
      refine isName_of_digits Nat.toDigits_ne_nil ?_ fun c hc =>
        Nat.isDigit_of_mem_toDigits (by decide) (by decide) hc
      have hlen : (Nat.toDigits 10 date.year).length ≤ 4 :=
        (Nat.length_toDigits_le_iff (by decide) (by decide)).2 (by omega)
      omega
    · rw [List.mem_singleton.1 h]
      refine isName_of_digits (Date.padded_ne_nil _ _) ?_ fun c hc =>
        Date.isDigit_of_mem_padded hc
      rw [Date.length_padded (by decide) (by omega)]
      decide
  · cases h

/-! ## Destinations -/

theorem toList_destinationFor (note : Note) (date : Date) (s : Settings) :
    (destinationFor note date s).toList =
      s.targetFolder.toList ++ '/' ::
        ("/".intercalate (s.dateFolders date ++ [note.name])).toList := by
  rw [destinationFor, Settings.dateFolders]
  split
  · rw [List.cons_append, List.cons_append, List.nil_append,
      String.intercalate_cons_of_ne_nil (by simp), String.intercalate_cons_of_ne_nil (by simp),
      String.intercalate_singleton]
    simp [String.toList_append]
  · simp [String.toList_append]

/-- The names that lead to a destination. -/
theorem parts_destinationFor {note : Note} (hn : Path.IsPart note.name) (date : Date)
    (s : Settings) :
    (Path.ofString (destinationFor note date s)).parts =
      (Path.ofString s.targetFolder).parts ++ (s.dateFolders date ++ [note.name]) := by
  have hparts : ∀ name ∈ s.dateFolders date ++ [note.name], Path.IsPart name := by
    intro name h
    rcases List.mem_append.1 h with h | h
    · exact isPart_of_mem_dateFolders h
    · rwa [List.mem_singleton.1 h]
  change Path.components _ = Path.components _ ++ _
  rw [toList_destinationFor, Path.components_append_slash, Path.components_intercalate hparts]

/-- Inside the vault a target folder makes destinations inside the vault. -/
theorem isVaultRelative_destinationFor {note : Note} (hn : IsName note.name) {s : Settings}
    {date : Date} (hne : s.targetFolder ≠ "") (hin : isVaultRelative s.targetFolder = true) :
    isVaultRelative (destinationFor note date s) = true := by
  obtain ⟨hm, hup⟩ := Path.isVaultRelative_iff.1 hin
  rw [Path.isVaultRelative_iff, parts_destinationFor (Path.isPart_of_isName hn)]
  constructor
  · have hne' : s.targetFolder.toList ≠ [] := fun h => hne (String.toList_eq_nil_iff.1 h)
    rw [Path.ofString_mark] at hm ⊢
    rw [toList_destinationFor, Path.markOf_append hne', hm]
  · rw [List.mem_append, List.mem_append, List.mem_singleton]
    rintro (h | h | h)
    · exact hup h
    · obtain ⟨cs, hcs, -, hd⟩ := digits_of_mem_dateFolders h
      exact ofList_ne_of_digits hd ⟨'.', by decide, rfl⟩ hcs.symm
    · exact hn.ne_points h.symm

/-- The folder of a path. -/
def folderOf (path : String) : String := (Path.ofString path).parent.text

theorem ofString_folderOf {path : String} (h : isVaultRelative path = true) :
    Path.ofString (folderOf path) = ⟨"", (Path.ofString path).parts.dropLast⟩ := by
  rw [folderOf, Path.parent, (Path.isVaultRelative_iff.1 h).1]
  exact Path.ofString_text fun name hn => Path.isPart_of_mem_parts (List.dropLast_subset _ hn)

theorem isVaultRelative_folderOf {path : String} (h : isVaultRelative path = true) :
    isVaultRelative (folderOf path) = true := by
  rw [Path.isVaultRelative_iff, ofString_folderOf h]
  exact ⟨rfl, fun hm => (Path.isVaultRelative_iff.1 h).2 (List.dropLast_subset _ hm)⟩

namespace Batch

variable {b : Batch}

/-- The note has to go to `m.2`. -/
structure Plans (b : Batch) (m : Note × String) : Prop where
  candidate : isCandidate b.format m.1 = true
  verdict : b.verdict m.1 = .move m.2

/-- The notes among some files that have to go, each with its destination. -/
def moves (b : Batch) (notes : List Note) : List (Note × String) :=
  (b.candidates notes).filterMap fun n => (b.verdict n).destination?.map (n, ·)

theorem mem_moves_iff {notes : List Note} {m : Note × String} :
    m ∈ b.moves notes ↔ m.1 ∈ notes ∧ b.Plans m := by
  rw [moves, List.mem_filterMap]
  constructor
  · rintro ⟨n, hn, hm⟩
    obtain ⟨hn, hc⟩ := List.mem_filter.1 hn
    obtain ⟨D, hD, rfl⟩ := Option.map_eq_some_iff.1 hm
    refine ⟨hn, hc, ?_⟩
    dsimp only at hD ⊢
    cases hv : b.verdict n with
    | skip reason =>
      rw [hv] at hD
      cases hD
    | move D' =>
      rw [hv] at hD
      cases hD
      rfl
  · rintro ⟨hn, hc, hv⟩
    refine ⟨m.1, List.mem_filter.2 ⟨hn, hc⟩, ?_⟩
    rw [hv]
    rfl

theorem moves_singleton_of_plans {m : Note × String} (h : b.Plans m) : b.moves [m.1] = [m] := by
  simp [moves, candidates, h.candidate, h.verdict, Verdict.destination?]

theorem isReal_of_readDate {c : Compiled} {stem : String} {date : Date}
    (h : c.readDate stem = .ok date) : date.IsReal := by
  -- only the last step of a reading gives a date, and it looks it up in the calendar
  rw [Compiled.readDate, Compiled.readDateBy] at h
  split at h
  · cases h
  · next texts _ =>
    rcases hk : readSlots ⟨none, none, none⟩ 0 (c.tokens.map Token.slot)
      (texts.filter (! ·.isEmpty)) with e | known
    · rw [hk] at h
      cases h
    · rw [hk] at h
      change known.complete = .ok date at h
      rw [PartialDate.complete] at h
      split at h
      · dsimp only at h
        split at h
        · next hreal =>
          cases h
          exact hreal
        · cases h
      · cases h

/-- A note that has to go has a date, which is not the day of the batch, and is not in the target
folder; its destination is made of that date. -/
theorem Plans.date {m : Note × String} (h : b.Plans m) :
    ∃ date, b.format.readDate m.1.stem = .ok date ∧ date.IsReal ∧ date ≠ b.today ∧
      isUnderFolder m.1.path b.settings.targetFolder = false ∧
      m.2 = destinationFor m.1 date b.settings := by
  have hv := h.verdict
  rw [Batch.verdict] at hv
  split at hv
  · cases hv
  · next date hd =>
    split at hv
    · cases hv
    · next hday =>
      split at hv
      · cases hv
      · next hunder =>
        exact ⟨date, hd, isReal_of_readDate hd, hday, by simpa using hunder,
          (Verdict.move.inj hv).symm⟩

theorem stem_congr {n n' : Note} (hname : n.name = n'.name) (hext : n.extension = n'.extension) :
    n.stem = n'.stem := by
  simp only [Note.stem, hname, hext]

/-- Notes of one name go to one destination. -/
theorem destination_unique {m m' : Note × String} (h : b.Plans m) (h' : b.Plans m')
    (hname : m.1.name = m'.1.name) (hext : m.1.extension = m'.1.extension) : m.2 = m'.2 := by
  obtain ⟨date, hd, -, -, -, hD⟩ := h.date
  obtain ⟨date', hd', -, -, -, hD'⟩ := h'.date
  rw [stem_congr hname hext, hd'] at hd
  cases hd
  rw [hD, hD', destinationFor, destinationFor, hname]

/-- The folders that a batch makes: the target folder, and the folders of the destinations. -/
def folders (b : Batch) (notes : List Note) : List String :=
  b.settings.targetFolder :: (b.moves notes).map fun m => folderOf m.2

end Batch

end NoteArchive
