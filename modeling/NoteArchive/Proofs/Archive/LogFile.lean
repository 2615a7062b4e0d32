import NoteArchive.Proofs.Archive.Whole
import NoteArchive.Proofs.DateFormat.Rendering
import NoteArchive.Proofs.Disk.MakeFolders
import NoteArchive.Proofs.World.Notices

/-!
# Opening the log file of a run

* `Moment.IsReal`: a moment of a day in the calendar.
* `isTooLong_logFileName`: the name of a log file is never too long.
* `CanLog`: no file is where a folder must be, and no folder where the log file must be.
* `appendLog_fails_iff`, `openLog_fails_iff`: the log cannot be opened exactly when this is not so
  and there is a log file at all.
-/

namespace NoteArchive

open Act

/-! ## Its name -/

/-- A moment of a day in the calendar. -/
structure Moment.IsReal (m : Moment) : Prop where
  date : m.date.IsReal
  hour : m.hour < 24
  minute : m.minute < 60
  second : m.second < 60

theorem Moment.utf8ByteSize_stamp_le {m : Moment} (h : m.IsReal) : m.stamp.utf8ByteSize ≤ 15 := by
  obtain ⟨hdate, hhour, hminute, hsecond⟩ := h
  have hday := hdate.day_le
  obtain ⟨-, hyear, -, hmonth, -, -⟩ := hdate
  have hdigits : ∀ c, c.isDigit = true ∨ c = '_' → c.utf8Size = 1 := by
    rintro c (hc | rfl)
    · exact utf8Size_of_isDigit hc
    · rfl
  have hpadded : ∀ n, ∀ c ∈ Date.padded 2 n, c.isDigit = true ∨ c = '_' :=
    fun n c hc => Or.inl (Date.isDigit_of_mem_padded hc)
  have hlength : ∀ n, n < 100 → (Date.padded 2 n).length = 2 :=
    fun n hn => Date.length_padded (by decide) hn
  have hyear' : (Nat.toDigits 10 m.date.year).length ≤ 4 :=
    (Nat.length_toDigits_le_iff (by decide) (by decide)).2 (by omega)
  rw [Moment.stamp, utf8ByteSize_of_utf8Size]
  · simp only [List.length_append, List.length_cons, hlength m.date.day (by omega),
      hlength m.date.month (by omega), hlength m.hour (by omega), hlength m.minute (by omega),
      hlength m.second (by omega)]
    omega
  · intro c hc
    simp only [List.mem_append, List.mem_cons] at hc
    apply hdigits
    rcases hc with ((hc | hc) | hc) | hc | (hc | hc) | hc
    · exact Or.inl (Nat.isDigit_of_mem_toDigits (by decide) (by decide) hc)
    · exact hpadded _ c hc
    · exact hpadded _ c hc
    · exact Or.inr hc
    · exact hpadded _ c hc
    · exact hpadded _ c hc
    · exact hpadded _ c hc

theorem Disk.isTooLong_eq_false_iff {name : String} :
    isTooLong name = false ↔ name.utf8ByteSize ≤ 255 := by
  rw [isTooLong, decide_eq_false_iff_not, Nat.not_lt]

theorem utf8ByteSize_append_append (a b c : String) :
    (a ++ b ++ c).utf8ByteSize = a.utf8ByteSize + b.utf8ByteSize + c.utf8ByteSize := by
  rw [String.utf8ByteSize_append, String.utf8ByteSize_append]

namespace Operation

/-- The name of a log file is not too long. -/
theorem isTooLong_logFileName {m : Moment} (h : m.IsReal) :
    Disk.isTooLong (logFileName m) = false := by
  have hfront : "daily_note_mover_".utf8ByteSize = 17 := by decide
  have hend : ".log".utf8ByteSize = 4 := by decide
  have hsize : (logFileName m).utf8ByteSize = _ :=
    utf8ByteSize_append_append "daily_note_mover_" m.stamp ".log"
  have hstamp := Moment.utf8ByteSize_stamp_le h
  rw [Disk.isTooLong_eq_false_iff, hsize, hfront, hend]
  omega

/-! ## Its place -/

/-- A log file can be written: no file is where a folder must be, and no folder where it must be. -/
structure CanLog (w : World) (name : String) : Prop where
  way : ∀ q, q <+: logPlace w [] → ¬ w.home.IsFile q
  free : w.home.get? (logPlace w [name]) ≠ some .folder

variable {w : World} {name : String}

theorem logPlace_singleton (w : World) (name : String) :
    logPlace w [name] = logPlace w [] ++ [name] := by
  rw [logPlace, logPlace, List.append_nil]

theorem isName_of_mem_logPlace (h : ∀ n ∈ w.homePath.parts, IsName n) :
    ∀ n ∈ logPlace w [], IsName n := by
  intro n hn
  rw [logPlace, List.append_nil] at hn
  rcases List.mem_append.1 hn with hn | hn
  · exact h n hn
  · have hnames : ∀ n ∈ logFolder, IsName n := by decide
    exact hnames n hn

/-- A log file cannot be written exactly where something is in its way. -/
theorem appendLog_fails_iff (ht : w.home.IsTree) (hpath : ∀ n ∈ w.homePath.parts, IsName n)
    (hs : Disk.isTooLong name = false) (more : List UInt8) :
    (appendLog name more).Fails w ↔ ¬ CanLog w name := by
  unfold Fails
  rw [appendLog, runIn_get_bind]
  rcases ht.makeFolders_cases (isName_of_mem_logPlace hpath) with
    ⟨⟨q, hq, hfile⟩, r, hmake⟩ | ⟨hway, home, hmake, hg, hfolder⟩ <;> rw [hmake]
  · exact ⟨fun _ hlog => hlog.way q hq hfile, fun _ => ⟨_, rfl⟩⟩
  · -- the folders that are made leave the place of the log file as it is
    have hsame : home.get? (logPlace w [name]) = w.home.get? (logPlace w [name]) := by
      refine (hg.get?_cases _).resolve_right ?_
      rintro ⟨_, _, hq⟩
      rw [logPlace_singleton] at hq
      simpa using hq.length_le
    have hlog : CanLog w name ↔ home.get? (logPlace w [] ++ [name]) ≠ some .folder := by
      rw [← logPlace_singleton, hsame]
      exact ⟨fun h => h.free, fun h => ⟨hway, h⟩⟩
    have hwrite := (hg.isTree ht).writeFile_concat hfolder hs
    dsimp only
    rw [runIn_set_bind, logPlace_singleton, hlog]
    by_cases hdir : home.get? (logPlace w [] ++ [name]) = some .folder
    · rw [((hwrite _).resolve_right fun h => h.1 hdir).2]
      exact ⟨fun _ h => h hdir, fun _ => ⟨_, rfl⟩⟩
    · rw [((hwrite _).resolve_left fun h => hdir h.1).2]
      refine iff_of_false ?_ (not_not_intro hdir)
      rintro ⟨_, he⟩
      cases he

/-- The log of a run cannot be opened exactly where something is in the way of its file. -/
theorem openLog_fails_iff (ht : w.home.IsTree) (hpath : ∀ n ∈ w.homePath.parts, IsName n)
    (hclock : w.clock.now.IsReal) (verbose : Bool) :
    (openLog verbose).Fails w ↔ verbose = true ∧ ¬ CanLog w (logFileName w.clock.now) := by
  rw [openLog]
  cases verbose with
  | false => exact iff_of_false ((succeeds_pure _).not_fails w) fun h => Bool.false_ne_true h.1
  | true =>
    have hread : readClock.runIn w =
        (.ok w.clock.now, { w with clock := clockAt true w.clock }) := rfl
    rw [if_pos rfl, fails_bind_of_ok hread]
    refine (fails_bind_iff (fun _ => (succeeds_tell _).bind fun _ => succeeds_pure _) _).trans ?_
    refine (appendLog_fails_iff (w := { w with clock := clockAt true w.clock }) ht hpath
      (isTooLong_logFileName hclock) []).trans ?_
    exact ⟨fun h => ⟨rfl, fun hlog => h ⟨hlog.way, hlog.free⟩⟩,
      fun h hlog => h.2 ⟨hlog.way, hlog.free⟩⟩

end Operation

end NoteArchive
