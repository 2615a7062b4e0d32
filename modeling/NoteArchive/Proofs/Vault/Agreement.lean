import NoteArchive.Archive.Folder
import NoteArchive.Proofs.World.Agreement
import NoteArchive.Settings.Store

/-!
# What operations on a vault hang on

From worlds that agree, the operations on a vault come to the same.

* `agrees_ensureFolder`, `agrees_move`: changes of the folders and the files.
* `agrees_checkRoot`, `agrees_notes`: the check of the vault, and its listing.
* `agrees_settleSettings`: the work on the settings.
-/

namespace NoteArchive.Vault

open Act

/-! ## Changes -/

theorem agrees_isThere (v : Vault) (path : String) : Agrees (v.isThere path) (v.isThere path) := by
  unfold isThere
  refine (agrees_ofExcept _).bind fun s => agrees_get_bind fun w w' hw => ?_
  rw [hw.disk]
  exact agrees_ofExcept _

theorem agrees_makeFolder (v : Vault) (path : String) :
    Agrees (v.makeFolder path) (v.makeFolder path) := by
  unfold makeFolder
  refine (agrees_interrupt _).bind fun _ => (agrees_ofExcept _).bind fun s => ?_
  split
  · exact agrees_throw_bind _ _ _
  · refine agrees_get_bind fun w w' hw => ?_
    rw [hw.disk]
    split
    · exact (agrees_set (hw.withDisk _)).bind fun _ => (telling_tell _).agrees (telling_tell _)
    all_goals exact agrees_throw _

theorem agrees_ensureFolder (v : Vault) (folder : String) :
    Agrees (v.ensureFolder folder) (v.ensureFolder folder) := by
  unfold ensureFolder
  induction (Path.ofString folder).steps with
  | nil => exact agrees_pure ()
  | cons step rest ih =>
    unfold ensureSteps
    refine (agrees_isThere v step).bind fun there => ?_
    split
    · exact ih
    · exact (agrees_makeFolder v step).bind fun _ =>
        (telling_tell _).bind_bind (telling_tell _) fun _ _ => ih

theorem agrees_systemMove (source target : Spot) :
    Agrees (systemMove source target) (systemMove source target) := by
  unfold systemMove
  refine (agrees_takeTurn _).bind fun turn => ?_
  cases turn with
  | some i =>
    dsimp only
    split <;> exact agrees_throw _
  | none =>
    dsimp only
    split
    · exact agrees_throw_bind _ _ _
    · refine agrees_get_bind fun w w' hw => ?_
      rw [hw.disk]
      split
      · exact agrees_set (hw.withDisk _)
      · exact agrees_throw _

theorem agrees_move (v : Vault) (note : Note) (target : String) :
    Agrees (v.move note target) (v.move note target) := by
  unfold Vault.move
  refine (agrees_interrupt _).bind fun _ => (agrees_ofExcept _).bind fun source =>
    (agrees_ofExcept _).bind fun goal => agrees_get_bind fun w w' hw => ?_
  rw [hw.disk]
  refine (agrees_ofExcept _).bind fun there => ?_
  dsimp only
  -- each check either ends the move or leads to the next one
  split
  · refine (agrees_ofExcept _).bind fun taken => ?_
    split
    · exact agrees_throw_bind _ _ _
    · refine (agrees_ofExcept _).bind fun isFolder => ?_
      split
      · exact (agrees_systemMove source goal).bind fun _ =>
          (telling_tell _).bind_bind (telling_tell _) fun _ _ => agrees_pure _
      · exact agrees_throw_bind _ _ _
  · exact agrees_throw_bind _ _ _

/-! ## The vault and its settings -/

theorem agrees_checkRoot (v : Vault) : Agrees v.checkRoot v.checkRoot := by
  unfold checkRoot
  refine agrees_get_bind fun w w' hw => ?_
  rw [hw.disk, hw.permitted]
  refine (agrees_ofExcept _).bind fun there => ?_
  cases there with
  | false => exact agrees_throw_bind _ _ _
  | true =>
    refine (agrees_ofExcept _).bind fun folder => ?_
    cases folder with
    | false => exact agrees_throw_bind _ _ _
    | true =>
      cases w.permitted with
      | false => exact agrees_throw _
      | true => exact agrees_pure ()

theorem agrees_notes (v : Vault) : Agrees v.notes v.notes := by
  unfold notes
  refine (agrees_interrupt _).bind fun _ => agrees_get_bind fun w w' hw => ?_
  rw [hw.disk]
  split
  · exact agrees_throw _
  · exact agrees_pure _

theorem agrees_loadSettings (v : Vault) (around : Nat) :
    Agrees (v.loadSettings around) (v.loadSettings around) := by
  unfold loadSettings
  refine agrees_get_bind fun w w' hw => ?_
  rw [hw.disk]
  exact (agrees_ofExcept _).bind fun loaded =>
    (telling_tellAll _).bind_bind (telling_tellAll _) fun _ _ => agrees_pure _

theorem agrees_putSettings (v : Vault) (content : List UInt8) :
    Agrees (v.putSettings content) (v.putSettings content) := by
  unfold putSettings
  refine agrees_get_bind fun w w' hw => ?_
  rw [hw.disk]
  dsimp only
  split
  · split
    · exact (agrees_set (hw.withDisk _)).bind fun _ => agrees_throw _
    · refine (agrees_set (hw.withDisk _)).bind fun _ => ?_
      split
      · exact agrees_throw _
      · exact agrees_set (hw.withDisk _)
  · exact agrees_throw_bind _ _ _

theorem agrees_saveSettings (v : Vault) (r : Settings.Raw) :
    Agrees (v.saveSettings r) (v.saveSettings r) := by
  unfold saveSettings writeSettings
  split
  · exact (agrees_putSettings v _).bind fun _ => (telling_tell _).agrees (telling_tell _)
  · exact (agrees_putSettings v _).bind fun _ => agrees_throw _

theorem agrees_settleSettings (v : Vault) (around : Nat) :
    Agrees (v.settleSettings around) (v.settleSettings around) := by
  unfold settleSettings
  refine (agrees_loadSettings v _).bind fun s =>
    (telling_tellAll _).bind_bind (telling_tellAll _) fun _ _ => ?_
  refine (agrees_saveSettings v _).attempt.bind fun r => ?_
  split
  · exact agrees_pure _
  · exact (telling_notify _).bind_bind (telling_notify _) fun _ _ => agrees_pure _
  · exact agrees_throw _

end NoteArchive.Vault
