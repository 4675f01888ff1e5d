import GoRefactor.Json.Shape
import GoRefactor.Snapshot.Syntax
import GoRefactor.Transform.Plan

/-!
# Options and plans as documents

JSON forms of the options of transformations. A plan is tagged by the name of its transformation;
options that are left out have their defaults.
-/

namespace GoRefactor.Document

/-- Read the options of a rename. -/
def renameOptions? (json : Json) : Option RenameOptions := do
  let record ← json.record? false ["old", "new", "parent_type", "package", "dry_run"]
  let old ← record.required? "old" Json.text?
  let new ← record.required? "new" Json.text?
  let parentType ← record.withDefault? "parent_type" none (Json.nullable? Json.text?)
  let package ← record.withDefault? "package" none (Json.nullable? Json.text?)
  let dryRun ← record.withDefault? "dry_run" false Json.bool?
  return ⟨old, new, parentType, package, dryRun⟩

/-- Members of the options of a rename; a scope that is not given is left out. -/
def renameMembers (options : RenameOptions) : List (String × Json) :=
  [("old", .string options.old), ("new", .string options.new)] ++
    Json.present "parent_type" .string options.parentType ++
    Json.present "package" .string options.package ++
    [("dry_run", .bool options.dryRun)]

/-- Fields of the options of an extraction, in order. -/
def extractionFields : List String :=
  ["min_types", "min_methods", "exclude_packages", "exclude_types", "exclude_methods",
    "include_private", "interface_name", "target_package", "target_file", "create_new_files",
    "dry_run"]

/-- Read the options of an extraction. -/
def extractionOptions? (json : Json) : Option ExtractionOptions := do
  let record ← json.record? false extractionFields
  let minTypes ← record.withDefault? "min_types" 2 Json.word?
  let minMethods ← record.withDefault? "min_methods" 1 Json.word?
  let excludePackages ← record.withDefault? "exclude_packages" [] (Json.list? Json.text?)
  let excludeTypes ← record.withDefault? "exclude_types" [] (Json.list? Json.text?)
  let excludeMethods ← record.withDefault? "exclude_methods" [] (Json.list? Json.text?)
  let includePrivate ← record.withDefault? "include_private" false Json.bool?
  let interfaceName ← record.withDefault? "interface_name" none (Json.nullable? Json.text?)
  let targetPackage ← record.withDefault? "target_package" none (Json.nullable? Json.text?)
  let targetFile ← record.withDefault? "target_file" none (Json.nullable? Json.text?)
  let createNewFiles ← record.withDefault? "create_new_files" false Json.bool?
  let dryRun ← record.withDefault? "dry_run" false Json.bool?
  return {
    minTypes, minMethods, excludePackages, excludeTypes, excludeMethods, includePrivate,
    interfaceName, targetPackage, targetFile, createNewFiles, dryRun }

/-- Members of the options of an extraction, all of them written out. -/
def extractionMembers (options : ExtractionOptions) : List (String × Json) :=
  [("min_types", .nat options.minTypes),
    ("min_methods", .nat options.minMethods),
    ("exclude_packages", .strings options.excludePackages),
    ("exclude_types", .strings options.excludeTypes),
    ("exclude_methods", .strings options.excludeMethods),
    ("include_private", .bool options.includePrivate),
    ("interface_name", .nullable .string options.interfaceName),
    ("target_package", .nullable .string options.targetPackage),
    ("target_file", .nullable .string options.targetFile),
    ("create_new_files", .bool options.createNewFiles),
    ("dry_run", .bool options.dryRun)]

/-- The options of an extraction. -/
def extractionOptions (options : ExtractionOptions) : Json := .object (extractionMembers options)

mutual

/-- A plan, tagged by the name of its transformation. -/
def transformation : Transformation → Json
  | .rename options =>
    .object (("transform", .string "rename") :: renameMembers options)
  | .extract options =>
    .object (("transform", .string "extract_interfaces") :: extractionMembers options)
  | .chain steps =>
    .object [("transform", .string "chain"), ("steps", .array (transformations steps))]

/-- The steps of a chain. -/
def transformations : List Transformation → List Json
  | [] => []
  | step :: rest => transformation step :: transformations rest

end

/-- Read a plan, given how to read the steps of a chain. -/
def transformationWith? (origin : Json.Origin) (step? : Json → Option Transformation)
    (json : Json) : Option Transformation := do
  let (tag, body) ← json.tagged? origin "transform" ["rename", "extract_interfaces", "chain"]
  match tag with
  | "rename" => return .rename (← renameOptions? body)
  | "extract_interfaces" => return .extract (← extractionOptions? body)
  | "chain" =>
    let record ← body.record? false ["steps"]
    let steps ← record.required? "steps" (Json.list? step?)
    return .chain steps
  | _ => none

/-- Read a step of at most `limit` levels from within a held plan. -/
def stepWithin? : Nat → Json → Option Transformation
  | 0, _ => none
  | limit + 1, json => transformationWith? .held (stepWithin? limit) json

/-- Read a plan. -/
def transformation? : Json → Option Transformation :=
  Json.whole? fun json => transformationWith? .document (stepWithin? (Snapshot.depth json)) json

/-- Read a method of a method set. -/
def methodShape? (json : Json) : Option MethodShape := do
  let record ← json.record? false ["name", "signature"]
  let name ← record.required? "name" Json.text?
  let signature ← record.required? "signature" Json.text?
  return ⟨name, signature⟩

/-- Read a struct that has a method set. -/
def implementer? (json : Json) : Option Implementer := do
  let record ← json.record? false ["name", "package", "file"]
  let name ← record.required? "name" Json.text?
  let package ← record.required? "package" Json.text?
  let file ← record.required? "file" Json.text?
  return ⟨name, package, file⟩

/-- Read a method set with its structs. -/
def methodPattern? (json : Json) : Option MethodPattern := do
  let record ← json.record? false ["methods", "implementers"]
  let methods ← record.required? "methods" (Json.list? methodShape?)
  let implementers ← record.required? "implementers" (Json.list? implementer?)
  return ⟨methods, implementers⟩

/-- A method set with its structs. -/
def methodPattern (pattern : MethodPattern) : Json :=
  .object [
    ("methods", .array (pattern.methods.map fun method =>
      .object [("name", .string method.name), ("signature", .string method.signature)])),
    ("implementers", .array (pattern.implementers.map fun struct =>
      .object [
        ("name", .string struct.name),
        ("package", .string struct.package),
        ("file", .string struct.file)]))]

end GoRefactor.Document
