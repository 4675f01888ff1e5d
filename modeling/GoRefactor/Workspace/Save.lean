import GoRefactor.Json.Printer
import GoRefactor.Module.Basic
import GoRefactor.Snapshot.Module
import GoRefactor.Sort
import GoRefactor.Text.Sha256
import GoRefactor.Workspace.Load

/-!
# Saving modules

The texts of changed files go below a root directory. A path that could lead out of it is refused
before anything is written. A manifest records the hash of each written text.
-/

namespace GoRefactor

/-- A file in a manifest. -/
structure ManifestEntry where
  /-- Path from the module's root. -/
  path : String
  /-- Hash of the text. -/
  hash : String
  /-- Number of bytes. -/
  bytes : Nat
deriving DecidableEq, Repr, Inhabited

/-- Record of one save. -/
structure Manifest where
  /-- Path of the module. -/
  module : String
  /-- Revision that was saved. -/
  revision : Nat
  /-- Files that were written, by path. -/
  files : List ManifestEntry
deriving DecidableEq, Repr, Inhabited

/-- A manifest as a document, with the time of the save. -/
def Manifest.document (manifest : Manifest) (savedAt : String) : Json :=
  .object [
    ("module", .string manifest.module),
    ("revision", .nat manifest.revision),
    ("saved_at", .string savedAt),
    ("files", .array (manifest.files.map fun entry =>
      .object [
        ("path", .string entry.path),
        ("sha256", .string entry.hash),
        ("bytes", .nat entry.bytes)]))]

namespace Module

/-- Changed files by path, provided that all of them stay below the root. -/
def filesToSave (module : Module) (root : String) : Except Error (List SourceFile) :=
  let changed := sortBy (fun left right => decide (left.path ≤ right.path)) module.modifiedFiles
  match changed.find? fun file => !isModuleRelative file.path with
  | some file => .error (.io (.outsideRoot root file.path))
  | none => .ok changed

/-- Record of saving files. -/
def manifest (module : Module) (saved : List SourceFile) : Manifest where
  module := module.path
  revision := module.revision
  files := saved.map fun file =>
    ⟨file.path, sha256 file.content, file.content.utf8ByteSize⟩

end Module

namespace Workspace

/-- Write files one after the other, up to the first that cannot be written. -/
def writeFiles (workspace : Workspace) (root : String) :
    List SourceFile → Workspace × Option Error
  | [] => (workspace, none)
  | file :: rest =>
    match workspace.write? (joinPath root file.path) (.text file.content) with
    | none => (workspace, some (.io (.unwritable file.path)))
    | some written => written.writeFiles root rest

/-- Save the changed files of a module below a root. Gives the files as far as they were written,
and what was saved or the reason why not all was saved. -/
def save (workspace : Workspace) (root : String) (module : Module) :
    Workspace × Except Error (List SourceFile) :=
  match module.filesToSave root with
  | .error error => (workspace, .error error)
  | .ok files =>
    match workspace.writeFiles root files with
    | (written, none) => (written, .ok files)
    | (written, some error) => (written, .error error)

end Workspace

/-- A module as the text of a snapshot. -/
def Module.snapshotText (module : Module) : String := (Snapshot.encodeModule module).pretty

end GoRefactor
