import NoteArchive.Vault

/-!
# Folders for notes

* `Vault.ensureFolder`: a folder of the vault is made, and before it the folders that lead to it, as
  far as they are missing.
-/

namespace NoteArchive.Vault

/-- Makes those of some folders that are missing, one after the other. -/
def ensureSteps (v : Vault) : List String → Act Unit
  | [] => return ()
  | step :: rest => do
    unless ← v.isThere step do
      v.makeFolder step
      tell (.record ⟨"archiver", .info, "フォルダを作成: " ++ step⟩)
    v.ensureSteps rest

/-- Makes a folder and the folders that lead to it, as far as they are missing. -/
def ensureFolder (v : Vault) (folder : String) : Act Unit :=
  v.ensureSteps (Path.ofString folder).steps

end NoteArchive.Vault
