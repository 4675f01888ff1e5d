import GoRefactor.Module.Basic
import GoRefactor.Snapshot.File

/-!
# Modules as JSON

The snapshot of a module holds its packages with their files, texts included.
-/

namespace GoRefactor.Snapshot

/-- A package. -/
def encodePackage (package : Package) : Json :=
  .object [("path", .string package.path), ("name", .string package.name),
    ("files", .array (package.files.map encodeFile)), ("modified", .bool package.modified)]

/-- Read a package. -/
def package? (json : Json) : Option Package := do
  let record ← json.record? false ["path", "name", "files", "modified"]
  let path ← record.required? "path" Json.text?
  let name ← record.required? "name" Json.text?
  let files ← record.required? "files" (Json.list? file?)
  let modified ← record.withDefault? "modified" false Json.bool?
  return ⟨path, name, files, modified⟩

/-- A module. -/
def encodeModule (module : Module) : Json :=
  .object [("path", .string module.path), ("packages", encodeMap encodePackage module.packages),
    ("revision", .nat module.revision)]

/-- Read a module. -/
def module? (json : Json) : Option Module := do
  let record ← json.record? false ["path", "packages", "revision"]
  let path ← record.required? "path" Json.text?
  let packages ← record.required? "packages" (map? package?)
  let revision ← record.withDefault? "revision" 0 Json.word?
  return ⟨path, packages, revision⟩

end GoRefactor.Snapshot
