import NoteArchive.Proofs.Calendar.Digits
import NoteArchive.Proofs.Vault.Move

/-!
# Failures that the operations on a vault do not tell of

The operations on the files of a vault say that they fail at problems with files.  A null character
in a path and a name or a path that is too long can make them fail otherwise.

* `Act.Escapes`: an operation fails at something else than a problem with files.
* `escapes_makeFolder_iff`, `escapes_move_iff`, `escapes_ensureFolder_iff`: when failures escape
  where nothing fails from outside, and which ones.
* `escapes_iff`: all three together.
-/

namespace NoteArchive

open Act Vault

/-- An operation fails, and not at a problem with files. -/
def Act.Escapes {α : Type} (act : Act α) (w : World) (e : Failure) : Prop :=
  (act.runIn w).1 = .error e ∧ ∀ p, e ≠ .file p

namespace Vault

variable {v : Vault} {w : World} {d : Disk} {e : Failure}

/-- What is below an overlong spot is overlong. -/
theorem Spot.Overlong.below {names more : List String} (hparts : ∀ n ∈ more, Path.IsPart n)
    (h : (v.spot names).Overlong d) (hnull : hasNull (v.spot (names ++ more)).text = false) :
    (v.spot (names ++ more)).Overlong d := by
  obtain ⟨-, htakes | ⟨q, name, rest, hplace, hq, hlong⟩⟩ := h
  · have hle : (v.spot names).text.utf8ByteSize ≤ (v.spot (names ++ more)).text.utf8ByteSize := by
      have := Path.utf8ByteSize_text_le_join (v.path.join names) hparts
      rwa [Path.join, Path.join, List.append_assoc] at this
    refine ⟨hnull, Or.inl ?_⟩
    rw [Disk.takesPath, decide_eq_false_iff_not] at htakes ⊢
    omega
  · refine ⟨hnull, Or.inr ⟨q, name, rest ++ more, ?_, hq, hlong⟩⟩
    have : v.place ++ names = q ++ name :: rest := hplace
    rw [spot, ← List.append_assoc, this, List.append_assoc, List.cons_append]

/-! ## Making one folder -/

/-- Where nothing fails from outside, a folder whose path has no null character is refused as a
problem with files. -/
theorem file_of_makeFolder_error {path : String} {s : Spot} (hw : w.Calm)
    (hs : v.resolve path = .ok s) (hnull : hasNull s.text = false) {e : Failure}
    (h : (v.makeFolder path).runIn w = (.error e, w')) : ∃ problem, e = .file problem := by
  rw [makeFolder, runIn_bind_of_ok (runIn_interrupt_of_calm hw _), runIn_ofExcept_bind, hs] at h
  dsimp only at h
  rw [runIn_ite, if_neg (by simp [hnull]), runIn_get_bind] at h
  split at h
  · cases h
  all_goals
    cases h
    exact ⟨_, rfl⟩

/-- Of making a folder only a null character escapes. -/
theorem escapes_makeFolder_iff (v : Vault) (path : String) (hw : w.Calm) :
    Escapes (v.makeFolder path) w e ↔
      isVaultRelative path = true ∧ hasNull (v.spot (Path.ofString path).parts).text = true ∧
        e = .nullCharacter := by
  have hrun : ∀ s, v.resolve path = .ok s → hasNull s.text = true →
      (v.makeFolder path).runIn w = (.error .nullCharacter, w) := by
    intro s hs hnull
    rw [makeFolder, runIn_bind_of_ok (runIn_interrupt_of_calm hw _), runIn_ofExcept_bind, hs]
    dsimp only
    rw [runIn_ite, if_pos hnull]
    rfl
  constructor
  · rintro ⟨he, hfile⟩
    rcases hs : v.resolve path with e' | s
    · -- a path that leaves the vault is a problem with files
      have hout : isVaultRelative path = false := by
        by_contra hin
        rw [resolve, if_pos (by simpa using hin)] at hs
        cases hs
      rw [makeFolder, runIn_bind_of_ok (runIn_interrupt_of_calm hw _), runIn_ofExcept_bind,
        resolve, hout] at he
      cases he
      exact absurd rfl (hfile _)
    · obtain ⟨hin, rfl⟩ := resolve_eq_ok_iff.1 hs
      by_cases hnull : hasNull (v.spot (Path.ofString path).parts).text = true
      · rw [hrun _ hs hnull] at he
        cases he
        exact ⟨hin, hnull, rfl⟩
      · rcases hr : (v.makeFolder path).runIn w with ⟨r, w'⟩
        rw [hr] at he
        cases he
        obtain ⟨p, hp⟩ := file_of_makeFolder_error hw hs (by simpa using hnull) hr
        exact absurd hp (hfile p)
  · rintro ⟨hin, hnull, rfl⟩
    rw [Escapes, hrun _ (resolve_eq_ok_iff.2 ⟨hin, rfl⟩) hnull]
    exact ⟨rfl, fun _ => Failure.noConfusion⟩

/-! ## Moving -/

/-- What escapes of a move between two paths in the vault: the system refuses to look at one of the
two, or at the folder of the target, or it meets a null character in the target. -/
inductive MoveEscapes (v : Vault) (d : Disk) (source target : String) : Failure → Prop where
  | longSource (hlong : (v.spot (Path.ofString source).parts).Overlong d) :
      v.MoveEscapes d source target (v.spot (Path.ofString source).parts).tooLong
  | longTarget (hacc : (v.spot (Path.ofString source).parts).Accepted d)
      (hthere : ∃ x, d.get? (v.placeOf source) = some x)
      (hlong : (v.spot (Path.ofString target).parts).Overlong d) :
      v.MoveEscapes d source target (v.spot (Path.ofString target).parts).tooLong
  | longFolder (hacc : (v.spot (Path.ofString source).parts).Accepted d)
      (hthere : ∃ x, d.get? (v.placeOf source) = some x)
      (hnull : hasNull (v.spot (Path.ofString target).parts).text = true)
      (hlong : (v.spot (Path.ofString target).parts.dropLast).Overlong d) :
      v.MoveEscapes d source target (v.spot (Path.ofString target).parts.dropLast).tooLong
  | nullTarget (hacc : (v.spot (Path.ofString source).parts).Accepted d)
      (hthere : ∃ x, d.get? (v.placeOf source) = some x)
      (hnull : hasNull (v.spot (Path.ofString target).parts).text = true)
      (habove : (v.spot (Path.ofString target).parts.dropLast).Accepted d)
      (hfolder : d.get? (v.place ++ (Path.ofString target).parts.dropLast) = some .folder) :
      v.MoveEscapes d source target .nullCharacter

theorem MoveEscapes.ne_file {source target : String} (h : v.MoveEscapes d source target e)
    (p : FileProblem) : e ≠ .file p := by
  cases h <;> exact Failure.noConfusion

section Move

variable {note : Note} {target : String}

/-- A move fails at one of its checks, or the system fails. -/
theorem move_fails_iff (hw : w.Calm) :
    ((v.move note target).runIn w).1 = .error e ↔
      v.checkMove note target w.disk = .error e ∨
        ∃ s g, v.checkMove note target w.disk = .ok (s, g) ∧
          ((systemMove s g).runIn w).1 = .error e := by
  rw [move_eq, runIn_bind_of_ok (runIn_interrupt_of_calm hw _), runIn_get_bind,
    runIn_ofExcept_bind]
  rcases v.checkMove note target w.disk with e' | ⟨s, g⟩
  · simp
  · dsimp only
    rw [runIn_bind]
    rcases hsys : (systemMove s g).runIn w with ⟨e' | _, w'⟩
    · simp [hsys]
    · dsimp only
      rw [runIn_tell_bind, runIn_pure]
      simp [hsys]

theorem escapes_systemMove_iff {s g : Spot} (hw : w.Calm) :
    Escapes (systemMove s g) w e ↔
      (hasNull s.text = true ∨ hasNull g.text = true) ∧ e = .nullCharacter := by
  rw [Escapes, systemMove, runIn_bind_of_ok (runIn_takeTurn_of_calm hw _)]
  dsimp only
  rw [runIn_ite]
  split
  · next hnull =>
    rw [runIn_throw_bind]
    constructor
    · rintro ⟨he, -⟩
      cases he
      exact ⟨hnull, rfl⟩
    · rintro ⟨-, rfl⟩
      exact ⟨rfl, fun _ => Failure.noConfusion⟩
  · next hnull =>
    rw [runIn_get_bind]
    refine ⟨?_, fun h => absurd h.1 hnull⟩
    rintro ⟨he, hfile⟩
    split at he
    · cases he
    · cases he
      exact absurd rfl (hfile _)

/-- The checks of a move fail at a problem with files, or where a failure escapes. -/
theorem moveEscapes_of_checkMove (ht : d.IsTree) (hfile : ∀ p, e ≠ .file p)
    (h : v.checkMove note target d = .error e) :
    isVaultRelative note.path = true ∧ isVaultRelative target = true ∧
      v.MoveEscapes d note.path target e := by
  have hresolve : ∀ path, v.resolve path ≠ .error e := by
    intro path hp
    exact hfile _ (resolve_eq_error_iff.1 hp).2
  -- the checks are taken apart in the order in which they are made
  obtain ⟨s, hs, h⟩ := (bind_eq_error h).resolve_left (hresolve _)
  obtain ⟨g, hg, h⟩ := (bind_eq_error h).resolve_left (hresolve _)
  obtain ⟨hsin, rfl⟩ := resolve_eq_ok_iff.1 hs
  obtain ⟨hgin, rfl⟩ := resolve_eq_ok_iff.1 hg
  refine ⟨hsin, hgin, ?_⟩
  rcases bind_eq_error h with h | ⟨there, hst, h⟩
  · obtain ⟨hlong, rfl⟩ := (Spot.isThere_eq_error_iff ht).1 h
    exact .longSource hlong
  cases there with
  | false =>
    cases h
    exact absurd rfl (hfile _)
  | true =>
    obtain ⟨hacc, hthere⟩ := (Spot.isThere_eq_true_iff ht).1 hst
    rcases bind_eq_error h with h | ⟨taken, hgt, h⟩
    · obtain ⟨hlong, rfl⟩ := (Spot.isThere_eq_error_iff ht).1 h
      exact .longTarget hacc hthere hlong
    cases taken with
    | true =>
      cases h
      exact absurd rfl (hfile _)
    | false =>
      rcases bind_eq_error h with h | ⟨above, -, h⟩
      · obtain ⟨hlong, rfl⟩ := (Spot.isFolder_eq_error_iff ht).1 h
        refine .longFolder hacc hthere ?_ hlong
        -- without a null character the target would be refused before its folder is looked at
        by_contra hnull
        obtain ⟨last, hlast⟩ : ∃ last, (Path.ofString target).parts =
            (Path.ofString target).parts.dropLast ++ last :=
          ⟨_, (List.prefix_iff_eq_append.1 (List.dropLast_prefix _)).symm⟩
        have hparts : ∀ n ∈ last, Path.IsPart n := fun n hn =>
          Path.isPart_of_mem_parts (hlast ▸ List.mem_append_right _ hn)
        have hbelow := hlong.below hparts (by rw [← hlast]; simpa using hnull)
        rw [← hlast] at hbelow
        rw [(Spot.isThere_eq_error_iff ht).2 ⟨hbelow, rfl⟩] at hgt
        cases hgt
      · cases above with
        | false =>
          cases h
          exact absurd rfl (hfile _)
        | true => cases h

/-- The checks of a move between two paths in the vault. -/
theorem checkMove_of_inside (hsin : isVaultRelative note.path = true)
    (hgin : isVaultRelative target = true) :
    v.checkMove note target d =
      match (v.spot (Path.ofString note.path).parts).isThere d with
      | .error e => .error e
      | .ok false => .error (.file .noSource)
      | .ok true =>
        match (v.spot (Path.ofString target).parts).isThere d with
        | .error e => .error e
        | .ok true => .error (.file .targetTaken)
        | .ok false =>
          match (v.spot (Path.ofString target).parts.dropLast).isFolder d with
          | .error e => .error e
          | .ok false => .error (.file .noTargetFolder)
          | .ok true =>
            .ok (v.spot (Path.ofString note.path).parts, v.spot (Path.ofString target).parts) := by
  rw [checkMove, resolve_eq_ok_iff.2 ⟨hsin, rfl⟩, resolve_eq_ok_iff.2 ⟨hgin, rfl⟩]
  simp only [bind, Except.bind]
  rcases (v.spot (Path.ofString note.path).parts).isThere d with e | _ | _
  · rfl
  · rfl
  rcases (v.spot (Path.ofString target).parts).isThere d with e | _ | _
  · rfl
  · rcases (v.spot (Path.ofString target).parts.dropLast).isFolder d with e | _ | _ <;> rfl
  · rfl

theorem escapes_move_iff (hw : w.Calm) (ht : w.disk.IsTree) :
    Escapes (v.move note target) w e ↔
      isVaultRelative note.path = true ∧ isVaultRelative target = true ∧
        v.MoveEscapes w.disk note.path target e := by
  rw [Escapes, move_fails_iff hw]
  constructor
  · rintro ⟨hcheck | ⟨s, g, hcheck, hsys⟩, hfile⟩
    · exact moveEscapes_of_checkMove ht hfile hcheck
    · obtain ⟨hs, hg, hst, hgt, habove⟩ := checkMove_eq_ok_iff.1 hcheck
      obtain ⟨hsin, rfl⟩ := resolve_eq_ok_iff.1 hs
      obtain ⟨hgin, rfl⟩ := resolve_eq_ok_iff.1 hg
      obtain ⟨hacc, hthere⟩ := (Spot.isThere_eq_true_iff ht).1 hst
      obtain ⟨haacc, hfolder⟩ := (Spot.isFolder_eq_true_iff ht).1 habove
      obtain ⟨hnull, rfl⟩ := (escapes_systemMove_iff hw).1 ⟨hsys, hfile⟩
      have hnull' := hnull.resolve_left (by simp [hacc.no_null])
      exact ⟨hsin, hgin, .nullTarget hacc hthere hnull' haacc hfolder⟩
  · rintro ⟨hsin, hgin, h⟩
    refine ⟨?_, h.ne_file⟩
    rw [checkMove_of_inside hsin hgin]
    cases h with
    | longSource hlong =>
      rw [(Spot.isThere_eq_error_iff ht).2 ⟨hlong, rfl⟩]
      exact Or.inl rfl
    | longTarget hacc hthere hlong =>
      rw [(Spot.isThere_eq_true_iff ht).2 ⟨hacc, hthere⟩,
        (Spot.isThere_eq_error_iff ht).2 ⟨hlong, rfl⟩]
      exact Or.inl rfl
    | longFolder hacc hthere hnull hlong =>
      rw [(Spot.isThere_eq_true_iff ht).2 ⟨hacc, hthere⟩, Spot.isThere_of_hasNull hnull,
        (Spot.isFolder_eq_error_iff ht).2 ⟨hlong, rfl⟩]
      exact Or.inl rfl
    | nullTarget hacc hthere hnull habove hfolder =>
      rw [(Spot.isThere_eq_true_iff ht).2 ⟨hacc, hthere⟩, Spot.isThere_of_hasNull hnull,
        (Spot.isFolder_eq_true_iff ht).2 ⟨habove, hfolder⟩]
      have hsys := (escapes_systemMove_iff (s := v.spot (Path.ofString note.path).parts) hw).2
        ⟨Or.inr hnull, rfl⟩
      exact Or.inr ⟨_, _, rfl, hsys.1⟩

end Move

/-! ## One folder after the other -/

/-- Folders are made one after the other until one of them fails. -/
theorem ensureSteps_fails_iff {steps : List String} :
    ((v.ensureSteps steps).runIn w).1 = .error e ↔
      ∃ before step after w₁, steps = before ++ step :: after ∧
        (v.ensureSteps before).runIn w = (.ok (), w₁) ∧
        ((v.ensureSteps [step]).runIn w₁).1 = .error e := by
  constructor
  · intro h
    induction steps generalizing w with
    | nil => cases h
    | cons step rest ih =>
      rw [← List.singleton_append, ensureSteps_append, runIn_bind] at h
      rcases hone : (v.ensureSteps [step]).runIn w with ⟨e' | _, w₁⟩
      · rw [hone] at h
        exact ⟨[], step, rest, w, rfl, rfl, by rw [hone]; exact h⟩
      · rw [hone] at h
        obtain ⟨before, step', after, w₂, rfl, hbefore, hstep⟩ := ih h
        refine ⟨step :: before, step', after, w₂, rfl, ?_, hstep⟩
        rw [← List.singleton_append, ensureSteps_append, runIn_bind_of_ok hone, hbefore]
  · rintro ⟨before, step, after, w₁, rfl, hbefore, hstep⟩
    rw [ensureSteps_append, runIn_bind_of_ok hbefore, ← List.singleton_append, ensureSteps_append,
      runIn_bind]
    rcases hone : (v.ensureSteps [step]).runIn w₁ with ⟨e' | _, w₂⟩
    · rw [hone] at hstep
      exact hstep
    · rw [hone] at hstep
      cases hstep

/-- A folder is made where nothing is found. -/
theorem step_fails_iff {step : String} :
    ((v.ensureSteps [step]).runIn w).1 = .error e ↔
      ((v.isThere step).runIn w).1 = .error e ∨
        ((v.isThere step).runIn w).1 = .ok false ∧
          ((v.makeFolder step).runIn w).1 = .error e := by
  rw [ensureSteps, runIn_bind, runIn_isThere]
  rcases v.resolve step >>= fun s => s.isThere w.disk with e' | _ | _
  · simp
  · dsimp only
    rw [if_neg (by simp), runIn_bind]
    rcases (v.makeFolder step).runIn w with ⟨e' | _, w₁⟩
    · simp
    · simp [ensureSteps, runIn_tell]
  · simp [ensureSteps, runIn_pure]

theorem of_stepsFrom_eq {done parts step : List String} {before after : List (List String)}
    (h : Path.stepsFrom done parts = before ++ step :: after) :
    ∃ front name, front ++ [name] <+: parts ∧ before = Path.stepsFrom done front ∧
      step = done ++ (front ++ [name]) := by
  induction before generalizing done parts with
  | nil =>
    cases parts with
    | nil => cases h
    | cons name rest =>
      obtain ⟨rfl, -⟩ := List.cons.inj h
      exact ⟨[], name, List.cons_prefix_cons.2 ⟨rfl, List.nil_prefix⟩, rfl, rfl⟩
  | cons first before ih =>
    cases parts with
    | nil => cases h
    | cons name rest =>
      obtain ⟨rfl, htail⟩ := List.cons.inj h
      obtain ⟨front, last, hp, rfl, rfl⟩ := ih htail
      refine ⟨name :: front, last, List.cons_prefix_cons.2 ⟨rfl, hp⟩, rfl, ?_⟩
      rw [List.append_assoc]
      rfl

/-- What escapes where a folder is to be made in a place at which something is. -/
inductive StepEscapes (v : Vault) (d : Disk) (front : List String) (name : String) :
    Failure → Prop where
  | null (hnull : hasNull (v.spot (front ++ [name])).text = true) :
      v.StepEscapes d front name .nullCharacter
  | long (hnull : hasNull (v.spot (front ++ [name])).text = false)
      (hlong : d.takesPath (v.spot (front ++ [name])).text = false ∨
        Disk.isTooLong name = true ∧ ¬ d.IsFile (v.place ++ front)) :
      v.StepEscapes d front name (v.spot (front ++ [name])).tooLong

theorem StepEscapes.ne_file {front : List String} {name : String}
    (h : v.StepEscapes d front name e) (p : FileProblem) : e ≠ .file p := by
  cases h <;> exact Failure.noConfusion

section Step

variable {front : List String} {name : String}

/-- Below a place at which something is, only the next name can be too long. -/
theorem overlong_concat_iff (ht : d.IsTree) (hthere : ∃ x, d.get? (v.place ++ front) = some x) :
    (v.spot (front ++ [name])).Overlong d ↔
      hasNull (v.spot (front ++ [name])).text = false ∧
        (d.takesPath (v.spot (front ++ [name])).text = false ∨
          Disk.isTooLong name = true ∧ ¬ d.IsFile (v.place ++ front)) := by
  obtain ⟨x, hx⟩ := hthere
  refine and_congr_right fun _ => or_congr_right ?_
  change (∃ q long rest, v.place ++ (front ++ [name]) = q ++ long :: rest ∧ _) ↔ _
  rw [← List.append_assoc]
  constructor
  · rintro ⟨q, long, rest, hplace, hq, hlong⟩
    rcases List.eq_nil_or_concat' rest with rfl | ⟨more, last, rfl⟩
    · obtain ⟨rfl, hname⟩ := List.append_inj' hplace rfl
      cases hname
      exact ⟨hlong, Disk.not_isFile_of_folder hq⟩
    · -- the names of what is there are short
      rw [← List.cons_append, ← List.append_assoc] at hplace
      obtain ⟨heq, -⟩ := List.append_inj' hplace rfl
      have hshort := (ht.names hx long (by rw [heq]; simp)).short
      rw [hlong] at hshort
      cases hshort
  · rintro ⟨hlong, hfile⟩
    rcases d.get?_cases (v.place ++ front) with hnone | hfolder | hfile'
    · rw [hx] at hnone
      cases hnone
    · exact ⟨_, name, [], rfl, hfolder, hlong⟩
    · exact absurd hfile' hfile

/-- A step up is a problem with files. -/
theorem not_escapes_step_of_up (hparts : ∀ n ∈ front ++ [name], Path.IsPart n)
    (hup : ".." ∈ front ++ [name]) :
    ¬ Escapes (v.ensureSteps [(Path.mk "" (front ++ [name])).text]) w e := by
  have hout : isVaultRelative (Path.mk "" (front ++ [name])).text = false := by
    rw [Bool.eq_false_iff]
    intro hin
    rw [Path.isVaultRelative_iff, Path.ofString_text hparts] at hin
    exact hin.2 hup
  rintro ⟨he, hfile⟩
  rw [ensureSteps, runIn_bind, runIn_isThere, resolve, hout] at he
  cases he
  exact absurd rfl (hfile _)

/-- What escapes of one step of making folders. -/
theorem escapes_step_iff (hw : w.Calm) (ht : w.disk.IsTree)
    (hparts : ∀ n ∈ front ++ [name], Path.IsPart n)
    (hthere : ∃ x, w.disk.get? (v.place ++ front) = some x) :
    Escapes (v.ensureSteps [(Path.mk "" (front ++ [name])).text]) w e ↔
      ".." ∉ front ++ [name] ∧ v.StepEscapes w.disk front name e := by
  by_cases hup : ".." ∈ front ++ [name]
  · exact ⟨fun h => absurd h (not_escapes_step_of_up hparts hup), fun h => absurd hup h.1⟩
  have hinside : isVaultRelative (Path.mk "" (front ++ [name])).text = true :=
    (resolve_eq_ok_iff.1 (resolve_text (v := v) hparts hup)).1
  have hmake : Escapes (v.makeFolder (Path.mk "" (front ++ [name])).text) w e ↔ _ :=
    escapes_makeFolder_iff v _ hw
  rw [Path.ofString_text hparts, and_iff_right hinside] at hmake
  rw [and_iff_right hup, Escapes, step_fails_iff, runIn_isThere_text hparts hup]
  constructor
  · rintro ⟨hq | ⟨-, hfails⟩, hfile⟩
    · obtain ⟨hlong, rfl⟩ := (Spot.isThere_eq_error_iff ht).1 hq
      obtain ⟨hnull, hlong⟩ := (overlong_concat_iff ht hthere).1 hlong
      exact .long hnull hlong
    · obtain ⟨hnull, rfl⟩ := hmake.1 ⟨hfails, hfile⟩
      exact .null hnull
  · intro h
    refine ⟨?_, h.ne_file⟩
    cases h with
    | null hnull =>
      exact Or.inr ⟨Spot.isThere_of_hasNull hnull _, (hmake.2 ⟨hnull, rfl⟩).1⟩
    | long hnull hlong =>
      have hover := (overlong_concat_iff ht hthere).2 ⟨hnull, hlong⟩
      exact Or.inl ((Spot.isThere_eq_error_iff ht).2 ⟨hover, rfl⟩)

end Step

/-! ## A folder with those above it -/

/-- The first names of a folder are those of folders that are there or can be made, and the next one
is looked at in the last of them, or in a file. -/
structure Reaches (v : Vault) (d : Disk) (folder : String) (front : List String) (name : String) :
    Prop where
  relative : (Path.ofString folder).mark = ""
  way : front ++ [name] <+: (Path.ofString folder).parts
  inside : ".." ∉ front ++ [name]
  short : ∀ n ∈ front, Disk.isTooLong n = false
  accepted : front ≠ [] → (v.spot front).Accepted d
  clear : ∀ more, more <+: front → more ≠ front → ¬ d.IsFile (v.place ++ more)

section Folder

variable {folder : String} {front : List String} {name : String}

theorem Reaches.isPart (h : v.Reaches d folder front name) : ∀ n ∈ front ++ [name], Path.IsPart n :=
  fun _ hn => Path.isPart_of_mem_parts (h.way.subset hn)

/-- What is at the place of the folders that could be made before a step. -/
theorem exists_of_ensureSteps {w₁ : World} (ht : w.disk.IsTree)
    (hroot : w.disk.get? v.place = some .folder) (hparts : ∀ n ∈ front, Path.IsPart n)
    (h : (v.ensureSteps ((Path.stepsFrom [] front).map fun names => (Path.mk "" names).text)).runIn w
      = (.ok (), w₁)) :
    w.disk.Grows (v.OnWay w.disk front) w₁.disk ∧
      ∃ x, w₁.disk.get? (v.place ++ front) = some x := by
  have hgrows : w.disk.Grows (v.OnWay w.disk front) w₁.disk :=
    (within_ensureSteps [] hparts).of_runIn h ht
  refine ⟨hgrows, ?_⟩
  by_cases hn : front = []
  · rw [hn, List.append_nil]
    exact ⟨_, hgrows.get?_of_some hroot⟩
  · exact (of_ensureSteps [] hparts ht h front (List.prefix_refl _) hn).2.2

theorem stepEscapes_iff_of_grows {allowed : Place → Prop} {d' : Disk} (h : d.Grows allowed d') :
    v.StepEscapes d' front name e ↔ v.StepEscapes d front name e := by
  have htakes : ∀ text, d'.takesPath text = d.takesPath text := fun text => by
    rw [Disk.takesPath, Disk.takesPath, h.longestPath_eq]
  constructor
  · rintro (hnull | ⟨hnull, hlong⟩)
    · exact .null hnull
    · rw [htakes, h.isFile_iff] at hlong
      exact .long hnull hlong
  · rintro (hnull | ⟨hnull, hlong⟩)
    · exact .null hnull
    · rw [← htakes, ← h.isFile_iff] at hlong
      exact .long hnull hlong

/-- The folders in front of a step that fails are there, or could be made. -/
theorem reaches_of_ensureSteps {w₁ : World} (ht : w.disk.IsTree)
    (hrel : (Path.ofString folder).mark = "")
    (hway : front ++ [name] <+: (Path.ofString folder).parts) (hinside : ".." ∉ front ++ [name])
    (h : (v.ensureSteps ((Path.stepsFrom [] front).map fun names => (Path.mk "" names).text)).runIn w
      = (.ok (), w₁)) :
    v.Reaches w.disk folder front name := by
  have hparts : ∀ n ∈ front, Path.IsPart n := fun n hn =>
    Path.isPart_of_mem_parts (hway.subset (List.mem_append_left _ hn))
  have hgrows : w.disk.Grows (v.OnWay w.disk front) w₁.disk :=
    (within_ensureSteps [] hparts).of_runIn h ht
  have ht₁ := hgrows.isTree ht
  have hall := of_ensureSteps [] hparts ht h
  refine ⟨hrel, hway, hinside, fun n hn => ?_, fun hn => ?_, fun more hmore hne hfile => ?_⟩
  · obtain ⟨-, -, x, hx⟩ := hall front (List.prefix_refl _) (List.ne_nil_of_mem hn)
    exact (ht₁.names hx n (List.mem_append_right _ hn)).short
  · exact (hall front (List.prefix_refl _) hn).2.1
  · have hn : front ≠ [] := by
      rintro rfl
      exact hne (List.prefix_nil.1 hmore)
    obtain ⟨-, -, x, hx⟩ := hall front (List.prefix_refl _) hn
    -- what has something in it is a folder
    have hfolder := ht₁.folder_of_prefix hx ((List.prefix_append_right_inj v.place).2 hmore)
      fun heq => hne (List.append_cancel_left heq)
    exact Disk.not_isFile_of_folder hfolder (hgrows.isFile_iff.2 hfile)

/-- What escapes of making a folder escapes of one of its steps. -/
theorem escapes_ensureFolder_iff (hw : w.Calm) (ht : w.disk.IsTree)
    (hroot : w.disk.get? v.place = some .folder) :
    Escapes (v.ensureFolder folder) w e ↔
      ∃ front name, v.Reaches w.disk folder front name ∧ v.StepEscapes w.disk front name e := by
  constructor
  · rintro ⟨h, hfile⟩
    by_cases hrel : (Path.ofString folder).mark = ""
    · rw [ensureFolder, steps_of_relative hrel, ensureSteps_fails_iff] at h
      obtain ⟨before, step, after, w₁, hsplit, hbefore, hstep⟩ := h
      obtain ⟨before, rest, hsteps, rfl, hrest⟩ := List.map_eq_append_iff.1 hsplit
      obtain ⟨names, rest, rfl, rfl, -⟩ := List.map_eq_cons_iff.1 hrest
      obtain ⟨front, name, hway, rfl, rfl⟩ := of_stepsFrom_eq hsteps
      have hparts : ∀ n ∈ front ++ [name], Path.IsPart n :=
        fun n hn => Path.isPart_of_mem_parts (hway.subset hn)
      obtain ⟨hgrows, hthere⟩ := exists_of_ensureSteps ht hroot
        (fun n hn => hparts n (List.mem_append_left _ hn)) hbefore
      have hw₁ := (within_ensureSteps_calm v _).of_runIn hbefore hw
      obtain ⟨hinside, hescapes⟩ :=
        (escapes_step_iff hw₁ (hgrows.isTree ht) hparts hthere).1 ⟨hstep, hfile⟩
      exact ⟨front, name, reaches_of_ensureSteps ht hrel hway hinside hbefore,
        (stepEscapes_iff_of_grows hgrows).1 hescapes⟩
    · rw [runIn_ensureFolder_of_absolute hrel] at h
      cases h
      exact absurd rfl (hfile _)
  · rintro ⟨front, name, hreaches, hstep⟩
    have hparts := hreaches.isPart
    have hparts' : ∀ n ∈ front, Path.IsPart n := fun n hn => hparts n (List.mem_append_left _ hn)
    obtain ⟨w₁, hbefore⟩ := runIn_ensureSteps_of_clear (v := v) [] hparts'
      (fun hm => hreaches.inside (List.mem_append_left _ hm)) hreaches.short hw ht
      hreaches.accepted (fun _ => by rwa [List.append_nil])
      (fun more hmore hne => by
        rw [List.append_nil]
        exact hreaches.clear more hmore hne)
    obtain ⟨hgrows, hthere⟩ := exists_of_ensureSteps ht hroot hparts' hbefore
    have hw₁ := (within_ensureSteps_calm v _).of_runIn hbefore hw
    have hescapes := (escapes_step_iff hw₁ (hgrows.isTree ht) hparts hthere).2
      ⟨hreaches.inside, (stepEscapes_iff_of_grows hgrows).2 hstep⟩
    obtain ⟨rest, hrest⟩ := hreaches.way
    refine ⟨?_, hescapes.2⟩
    rw [ensureFolder, steps_of_relative hreaches.relative, ensureSteps_fails_iff, ← hrest,
      List.append_assoc, stepsFrom_append, List.map_append]
    exact ⟨_, _, _, w₁, rfl, hbefore, hescapes.1⟩

/-- A folder in the vault itself, with a name that is too long. -/
theorem escapes_ensureFolder_of_long_name (hw : w.Calm) (ht : w.disk.IsTree)
    (hroot : w.disk.get? v.place = some .folder) (hpart : Path.IsPart name) (hup : name ≠ "..")
    (hnull : hasNull (v.spot [name]).text = false) (hlong : Disk.isTooLong name = true) :
    Escapes (v.ensureFolder name) w (v.spot [name]).tooLong := by
  have hpath : Path.ofString name = ⟨"", [name]⟩ := by
    have := Path.ofString_intercalate fun n hn => List.mem_singleton.1 hn ▸ hpart
    rwa [String.intercalate_singleton] at this
  have hreaches : v.Reaches w.disk name [] name := by
    refine ⟨by rw [hpath], by rw [hpath]; exact List.prefix_refl _, by simpa using hup.symm,
      fun _ hn => absurd hn List.not_mem_nil, fun hn => absurd rfl hn, fun more hmore hne => ?_⟩
    exact absurd (List.prefix_nil.1 hmore) hne
  refine (escapes_ensureFolder_iff hw ht hroot).2
    ⟨[], name, hreaches, .long hnull (Or.inr ⟨hlong, ?_⟩)⟩
  rw [List.append_nil]
  exact Disk.not_isFile_of_folder hroot

end Folder

end Vault

/-- Where nothing fails from outside, this is what makes the operations on a vault fail otherwise
than at a problem with files: a null character, where a folder is made or in the target of a move,
and names and paths that are too long for the system to look at. -/
theorem escapes_iff (v : Vault) (w : World) (e : Failure) (ht : w.disk.IsTree)
    (hroot : w.disk.get? v.place = some .folder) (hw : w.Calm) :
    (∀ path, Escapes (v.makeFolder path) w e ↔ isVaultRelative path = true ∧
        hasNull (v.spot (Path.ofString path).parts).text = true ∧ e = .nullCharacter) ∧
      (∀ note target, Escapes (v.move note target) w e ↔ isVaultRelative note.path = true ∧
        isVaultRelative target = true ∧ v.MoveEscapes w.disk note.path target e) ∧
      (∀ folder, Escapes (v.ensureFolder folder) w e ↔
        ∃ front name, v.Reaches w.disk folder front name ∧ v.StepEscapes w.disk front name e) :=
  ⟨fun path => escapes_makeFolder_iff v path hw, fun _ _ => escapes_move_iff hw ht,
    fun _ => escapes_ensureFolder_iff hw ht hroot⟩

/-- The first folder could be made, and the name of the second one has a null character. -/
theorem escapes_of_null_below_new_folder :
    let v : Vault := ⟨⟨"/", ["v"]⟩, ["v"]⟩
    let w : World := .ofDisk { entries := [(["v"], .folder)] }
    w.disk.IsTree ∧ w.disk.get? v.place = some .folder ∧ w.Calm ∧
      Escapes (v.ensureFolder "A/\x00") w .nullCharacter := by
  intro v w
  have ht : w.disk.IsTree := by decide
  have hparts : (Path.ofString "A/\x00").parts = ["A", "\x00"] := by decide +kernel
  have hreaches : v.Reaches w.disk "A/\x00" ["A"] "\x00" := by
    refine ⟨by decide +kernel, by rw [hparts]; exact List.prefix_refl _, by decide,
      by decide +kernel, fun _ => ⟨by decide +kernel, by decide +kernel⟩, fun more hmore hne => ?_⟩
    rcases List.prefix_cons_iff.1 hmore with rfl | ⟨rest, rfl, hrest⟩
    · exact Disk.not_isFile_of_folder rfl
    · rw [List.prefix_nil.1 hrest] at hne
      exact absurd rfl hne
  have hnull : hasNull (v.spot ["A", "\x00"]).text = true := by decide +kernel
  exact ⟨ht, rfl, rfl, ((escapes_iff v w .nullCharacter ht rfl rfl).2.2 _).2
    ⟨["A"], "\x00", hreaches, .null hnull⟩⟩

/-- A folder with a null character in its name is refused, and one with a name of 256 letters, and
neither as a problem with files. -/
theorem null_character_and_long_name_escape :
    let v : Vault := ⟨⟨"/", ["v"]⟩, ["v"]⟩
    let w : World := .ofDisk { entries := [(["v"], .folder)] }
    let long := String.ofList (List.replicate 256 'n')
    w.disk.IsTree ∧ w.disk.get? v.place = some .folder ∧ w.Calm ∧
      (((v.makeFolder "a\x00").runIn w).1 = .error .nullCharacter ∧
        Failure.kind .nullCharacter = "ValueError") ∧
      ∃ e, ((v.ensureFolder long).runIn w).1 = .error e ∧ (∀ p, e ≠ .file p) ∧
        e.kind = "OSError" := by
  intro v w long
  have ht : w.disk.IsTree := by decide
  have hw : w.Calm := rfl
  have hnull : Escapes (v.makeFolder "a\x00") w .nullCharacter :=
    (escapes_makeFolder_iff v _ hw).2 ⟨by decide +kernel, by decide +kernel, rfl⟩
  have hletters : ∀ c ∈ long.toList, c = 'n' := by
    rw [String.toList_ofList]
    exact fun c hc => List.eq_of_mem_replicate hc
  have hone : ∀ c ∈ List.replicate 256 'n', c.utf8Size = 1 := by
    intro c hc
    rw [List.eq_of_mem_replicate hc]
    decide
  have hsize : long.utf8ByteSize = 256 := by
    rw [utf8ByteSize_of_utf8Size hone]
    exact List.length_replicate
  have hother : ∀ name : String, name.utf8ByteSize < 256 → long ≠ name := by
    rintro name hname rfl
    omega
  have hpart : Path.IsPart long := by
    refine ⟨hother _ (by decide), hother _ (by decide), fun hslash => ?_⟩
    exact absurd (hletters _ hslash) (by decide)
  have hclean : hasNull (v.spot [long]).text = false := by
    rw [hasNull_spot, Bool.or_eq_false_iff, List.any_cons, List.any_nil, Bool.or_false]
    refine ⟨by decide +kernel, Bool.eq_false_iff.2 fun h => ?_⟩
    rw [hasNull, List.contains_iff_mem] at h
    exact absurd (hletters _ h) (by decide)
  have hlong : Disk.isTooLong long = true := by
    rw [Disk.isTooLong, hsize]
    rfl
  have hescapes :=
    escapes_ensureFolder_of_long_name hw ht rfl hpart (hother _ (by decide)) hclean hlong
  exact ⟨ht, rfl, hw, ⟨hnull.1, rfl⟩, _, hescapes.1, hescapes.2, rfl⟩

end NoteArchive
