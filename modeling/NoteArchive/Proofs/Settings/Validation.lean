import NoteArchive.Proofs.Text.Trim
import NoteArchive.Settings.Basic

/-!
# Settings that can be used

* `Raw.stand_validated`, `raw_validated`: validation is the same whether it looks at the characters
  of a text or at others in the place of its halves, and it makes no halves.
* `trimTarget_eq`, `resolveTarget_eq`: what it does to a target folder of characters.
* `targetFolder_validated`, `dateFormat_validated`: what validation makes of the two texts.
* `resolveTarget_ne_empty`: a target folder that can be used has a name.
* `validated_validated_iff`: settings that can be used are such once more unless a blank is at one
  end of their target folder.
-/

namespace NoteArchive.Settings

open Text (Wide wide)

/-! ## Halves of characters -/

/-- What is taken away at the ends of a target folder. -/
def trimEnds (s : List Char) : List Char := Text.trim (· = '/') (Text.trim Text.isBlank s)

theorem trimEnds_map (f : α → Char) (s : List α) :
    trimEnds (s.map f) = (Text.trim (f · = '/') (Text.trim (Text.isBlank ∘ f) s)).map f := by
  rw [trimEnds, Text.trim_map, Text.trim_map]
  rfl

namespace Raw

theorem stand_trimTarget_eq (t : Wide) :
    Text.stand (trimTarget t) =
      if trimEnds (Text.stand t).toList = [] then usual.targetFolder
      else String.ofList (trimEnds (Text.stand t).toList) := by
  have hends : trimEnds (Text.stand t).toList =
      (Text.trim (·.stand = '/') (Text.trim (Text.isBlank ·.stand) t)).map Text.Point.stand := by
    rw [Text.stand, String.toList_ofList, trimEnds_map]
    rfl
  rw [hends, trimTarget]
  simp only [List.map_eq_nil_iff]
  split
  · exact Text.stand_wide _
  · rfl

theorem stand_trimTarget (t : Wide) :
    Text.stand (trimTarget t) = Settings.trimTarget (Text.stand t) := by
  rw [Settings.trimTarget, stand_trimTarget_eq, stand_trimTarget_eq, Text.stand_wide]

theorem stand_resolveTarget (t : Wide) :
    Text.stand (resolveTarget t) =
      if isVaultRelative (Settings.trimTarget (Text.stand t)) then
        Settings.trimTarget (Text.stand t)
      else usual.targetFolder := by
  rw [resolveTarget, stand_trimTarget]
  split
  · exact stand_trimTarget t
  · exact Text.stand_wide _

end Raw

theorem trimTarget_eq (folder : String) :
    trimTarget folder =
      if trimEnds folder.toList = [] then usual.targetFolder
      else String.ofList (trimEnds folder.toList) := by
  rw [trimTarget, Raw.stand_trimTarget_eq, Text.stand_wide]

theorem resolveTarget_eq (folder : String) :
    resolveTarget folder =
      if isVaultRelative (trimTarget folder) then trimTarget folder else usual.targetFolder := by
  rw [resolveTarget, Raw.stand_resolveTarget, Text.stand_wide]

namespace Raw

/-- Where there are no halves, none come up. -/
theorem trimTarget_wide (folder : String) :
    trimTarget (wide folder) = wide (Settings.trimTarget folder) := by
  have hends : Text.trim (·.stand = '/') (Text.trim (Text.isBlank ·.stand) (wide folder)) =
      (trimEnds folder.toList).map .char := by
    rw [wide, Text.trim_map, Text.trim_map]
    rfl
  rw [trimTarget, hends, trimTarget_eq]
  simp only [List.map_eq_nil_iff]
  split
  · rfl
  · rw [wide, String.toList_ofList]

theorem resolveTarget_wide (folder : String) :
    resolveTarget (wide folder) = wide (Settings.resolveTarget folder) := by
  rw [resolveTarget, trimTarget_wide, Text.stand_wide, resolveTarget_eq]
  exact (apply_ite wide _ _ _).symm

theorem targetFolder_validated (r : Raw) :
    r.validated.targetFolder = resolveTarget r.targetFolder := by
  rw [validated]

theorem dateFormat_validated (r : Raw) :
    r.validated.dateFormat = DateFormat.resolveWide r.dateFormat := by
  rw [validated]

theorem showSummary_validated (r : Raw) : r.validated.showSummary = r.showSummary := by
  rw [validated]

theorem useSubfolders_validated (r : Raw) : r.validated.useSubfolders = r.useSubfolders := by
  rw [validated]

end Raw

/-! ## The two texts -/

theorem targetFolder_validated (s : Settings) :
    s.validated.targetFolder = resolveTarget s.targetFolder := by
  rw [validated, Raw.targetFolder_stand, Raw.targetFolder_validated, targetFolder_raw,
    resolveTarget]

theorem dateFormat_validated (s : Settings) :
    s.validated.dateFormat = DateFormat.resolve s.dateFormat := by
  rw [validated, Raw.dateFormat_stand, Raw.dateFormat_validated, DateFormat.stand_resolveWide,
    dateFormat_raw, Text.stand_wide]

theorem showSummary_validated (s : Settings) : s.validated.showSummary = s.showSummary := by
  rw [validated, Raw.showSummary_stand, Raw.showSummary_validated, showSummary_raw]

theorem useSubfolders_validated (s : Settings) :
    s.validated.useSubfolders = s.useSubfolders := by
  rw [validated, Raw.useSubfolders_stand, Raw.useSubfolders_validated, useSubfolders_raw]

/-- Whether a text has halves of characters in it does not matter for its validation. -/
theorem Raw.stand_validated (r : Raw) : r.validated.stand = r.stand.validated := by
  ext1
  · rw [Raw.targetFolder_stand, Raw.targetFolder_validated, stand_resolveTarget,
      Settings.targetFolder_validated, resolveTarget_eq, Raw.targetFolder_stand]
  · rw [Settings.showSummary_validated, showSummary_stand, showSummary_validated, showSummary_stand]
  · rw [Raw.dateFormat_stand, Raw.dateFormat_validated, DateFormat.stand_resolveWide,
      Settings.dateFormat_validated, Raw.dateFormat_stand]
  · rw [Settings.useSubfolders_validated, useSubfolders_stand, useSubfolders_validated,
      useSubfolders_stand]

/-- Validation brings no half of a character into a text. -/
theorem raw_validated (s : Settings) : s.raw.validated = s.validated.raw := by
  ext1
  · rw [Raw.targetFolder_validated, targetFolder_raw, Raw.resolveTarget_wide, targetFolder_raw,
      targetFolder_validated]
  · rw [Raw.showSummary_validated, showSummary_raw, showSummary_raw, showSummary_validated]
  · rw [Raw.dateFormat_validated, dateFormat_raw, DateFormat.resolveWide_wide, dateFormat_raw,
      dateFormat_validated]
  · rw [Raw.useSubfolders_validated, useSubfolders_raw, useSubfolders_raw,
      useSubfolders_validated]

theorem trimTarget_ne_empty (folder : String) : trimTarget folder ≠ "" := by
  rw [trimTarget_eq]
  split
  · decide
  · next hne =>
    intro he
    exact hne (by simpa using congrArg String.toList he)

theorem resolveTarget_ne_empty (folder : String) : resolveTarget folder ≠ "" := by
  rw [resolveTarget_eq]
  split
  · exact trimTarget_ne_empty folder
  · decide

theorem targetFolder_validated_ne_empty (s : Settings) : s.validated.targetFolder ≠ "" := by
  rw [targetFolder_validated]
  exact resolveTarget_ne_empty s.targetFolder

theorem validated_usual : usual.validated = usual := by decide +kernel

/-! ## Validating twice -/

theorem resolve_resolve (format : String) :
    DateFormat.resolve (DateFormat.resolve format) = DateFormat.resolve format := by
  rw [DateFormat.resolve, if_pos (DateFormat.isValid_resolve format)]

theorem resolveTarget_cases (folder : String) :
    (isVaultRelative (trimTarget folder) = true ∧ resolveTarget folder = trimTarget folder) ∨
      resolveTarget folder = usual.targetFolder := by
  rw [resolveTarget_eq]
  split
  · next h => exact Or.inl ⟨h, rfl⟩
  · exact Or.inr rfl

theorem isVaultRelative_resolveTarget (folder : String) :
    isVaultRelative (resolveTarget folder) = true := by
  rcases resolveTarget_cases folder with ⟨h, heq⟩ | heq
  · rw [heq, h]
  · rw [heq]
    decide +kernel

/-- No slash is at an end of a target folder that can be used. -/
theorem trim_slash_resolveTarget (folder : String) :
    Text.trim (· = '/') (resolveTarget folder).toList = (resolveTarget folder).toList := by
  have husual : Text.trim (· = '/') usual.targetFolder.toList = usual.targetFolder.toList := by
    decide +kernel
  rcases resolveTarget_cases folder with ⟨-, heq⟩ | heq
  · rw [heq, trimTarget_eq]
    split
    · exact husual
    · rw [String.toList_ofList]
      exact Text.trim_trim _ _
  · rw [heq, husual]

theorem length_trimTarget_le (folder : String) :
    trimTarget folder = usual.targetFolder ∨
      (trimTarget folder).toList.length ≤ (Text.trim Text.isBlank folder.toList).length := by
  rw [trimTarget_eq]
  split
  · exact Or.inl rfl
  · rw [String.toList_ofList]
    exact Or.inr (Text.trim_within _ _).length_le

/-- A target folder that can be used stays as it is exactly when no blank is at its ends. -/
theorem resolveTarget_resolveTarget_iff (folder : String) :
    resolveTarget (resolveTarget folder) = resolveTarget folder ↔
      Text.trim Text.isBlank (resolveTarget folder).toList = (resolveTarget folder).toList := by
  have hne := resolveTarget_ne_empty folder
  have hin := isVaultRelative_resolveTarget folder
  have hslash := trim_slash_resolveTarget folder
  generalize resolveTarget folder = T at hne hin hslash
  constructor
  · intro h
    refine Decidable.byContradiction fun hblank => ?_
    have husual : Text.trim Text.isBlank usual.targetFolder.toList = usual.targetFolder.toList := by
      decide +kernel
    have hT : T ≠ usual.targetFolder := fun he => hblank (he ▸ husual)
    -- what is cut off does not come back
    rcases resolveTarget_cases T with ⟨-, heq⟩ | heq
    · rw [h] at heq
      rcases length_trimTarget_le T with htrim | hlength
      · exact hT (heq.trans htrim)
      · rw [← heq] at hlength
        have hlt := Text.length_trim_lt hblank
        omega
    · exact hT (h.symm.trans heq)
  · intro hblank
    have htrim : trimTarget T = T := by
      have hne' : T.toList ≠ [] := fun h => hne (String.toList_eq_nil_iff.1 h)
      rw [trimTarget_eq, trimEnds]
      simp only [hblank, hslash]
      rw [if_neg hne', String.ofList_toList]
    rw [resolveTarget_eq, htrim, if_pos hin]

/-- Settings that can be used are such once more exactly when no blank is at the ends of their
target folder. -/
theorem validated_validated_iff (s : Settings) :
    s.validated.validated = s.validated ↔
      Text.trim Text.isBlank s.validated.targetFolder.toList =
        s.validated.targetFolder.toList := by
  rw [targetFolder_validated, ← resolveTarget_resolveTarget_iff]
  constructor
  · intro h
    have htarget := congrArg Settings.targetFolder h
    rwa [targetFolder_validated, targetFolder_validated] at htarget
  · intro h
    ext1
    · rw [targetFolder_validated, targetFolder_validated, h]
    · rw [showSummary_validated]
    · rw [dateFormat_validated, dateFormat_validated, resolve_resolve]
    · rw [useSubfolders_validated]

end NoteArchive.Settings
