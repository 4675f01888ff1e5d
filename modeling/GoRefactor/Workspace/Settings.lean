import GoRefactor.Json.Shape
import GoRefactor.Symbol.Collect
import GoRefactor.Text.Decimal
import GoRefactor.Transform.Extract
import GoRefactor.Workspace.Load

/-!
# Settings

Settings have defaults, which a settings file, the environment and flags override, in this order.
Each setting remembers where its value is from.
-/

namespace GoRefactor

/-- Where a setting is from, by increasing precedence. -/
inductive SettingSource where
  /-- Built in. -/
  | default
  /-- The settings file of the workspace. -/
  | file
  /-- A variable of the environment. -/
  | environment
  /-- A flag of the command line. -/
  | flag
deriving DecidableEq, Repr, Inhabited

namespace SettingSource

/-- Precedence of a source. -/
def rank : SettingSource → Nat
  | .default => 0
  | .file => 1
  | .environment => 2
  | .flag => 3

/-- Name of a source in output. -/
def name : SettingSource → String
  | .default => "default"
  | .file => "project_config"
  | .environment => "env_var"
  | .flag => "cli_flag"

end SettingSource

/-- A value and where it is from. -/
structure Setting (α : Type) where
  /-- The value. -/
  value : α
  /-- Its source. -/
  source : SettingSource := .default
deriving DecidableEq, Repr, Inhabited

namespace Setting

/-- Of two settings, the one with the higher precedence; of equal ones the second. -/
def merge {α : Type} (first second : Setting α) : Setting α :=
  if first.source.rank ≤ second.source.rank then second else first

/-- Override a setting if there is a value. -/
def override {α : Type} (setting : Setting α) (source : SettingSource) :
    Option α → Setting α
  | some value => setting.merge ⟨value, source⟩
  | none => setting

/-- A setting as a document. -/
def document {α : Type} (encode : α → Json) (setting : Setting α) : Json :=
  .object [("value", encode setting.value), ("source", .string setting.source.name)]

end Setting

/-- What a settings file may say. -/
structure SettingsFile where
  /-- Look at files that hold tests. -/
  includeTests : Option Bool := none
  /-- Look at unexported declarations. -/
  includePrivate : Option Bool := none
  /-- Keep doc comments. -/
  loadDocs : Option Bool := none
  /-- Tags for which build constraints hold. -/
  buildTags : Option (List String) := none
  /-- Fewest structs for an interface. -/
  minTypes : Option Nat := none
  /-- Fewest methods for an interface. -/
  minMethods : Option Nat := none
  /-- Patterns of import paths to leave out. -/
  excludePackages : Option (List String) := none
  /-- Patterns of struct names to leave out. -/
  excludeTypes : Option (List String) := none
  /-- Patterns of method names to leave out. -/
  excludeMethods : Option (List String) := none
  /-- Command that runs the tests. -/
  testCommand : Option (List String) := none
deriving DecidableEq, Repr, Inhabited

namespace SettingsFile

/-- Name of the settings file in a workspace. -/
def fileName : String := "symdex.json"

/-- Names of all settings; a file with any other is refused. -/
def fields : List String :=
  ["include_tests", "include_private", "load_docs", "build_tags", "min_types", "min_methods",
    "exclude_packages", "exclude_types", "exclude_methods", "test_command"]

/-- Read a settings document. -/
def ofJson? (json : Json) : Option SettingsFile := do
  let record ← json.record? true fields
  let bool? (name : String) := record.withDefault? name none (Json.nullable? Json.bool?)
  let count? (name : String) := record.withDefault? name none (Json.nullable? Json.word?)
  let texts? (name : String) :=
    record.withDefault? name none (Json.nullable? (Json.list? Json.text?))
  return {
    includeTests := ← bool? "include_tests"
    includePrivate := ← bool? "include_private"
    loadDocs := ← bool? "load_docs"
    buildTags := ← texts? "build_tags"
    minTypes := ← count? "min_types"
    minMethods := ← count? "min_methods"
    excludePackages := ← texts? "exclude_packages"
    excludeTypes := ← texts? "exclude_types"
    excludeMethods := ← texts? "exclude_methods"
    testCommand := ← texts? "test_command" }

/-- Read the text of a settings file. -/
def ofText (text : String) : Except Error SettingsFile :=
  match (Json.read? text).bind ofJson? with
  | some settings => .ok settings
  | none => .error (.invalidOptions (.badSettingsFile fileName))

/-- Read the settings file of a directory, if there is one. -/
def ofDirectory (workspace : Workspace) (root : String) : Except Error SettingsFile :=
  match workspace.find? (joinPath root fileName) with
  | some content => (content.read fileName).bind ofText
  | none => .ok {}

end SettingsFile

/-- What flags of the command line set. -/
structure FlagSettings where
  /-- Look at files that hold tests. -/
  includeTests : Option Bool := none
  /-- Look at unexported declarations. -/
  includePrivate : Option Bool := none
  /-- Fewest structs for an interface. -/
  minTypes : Option Nat := none
  /-- Fewest methods for an interface. -/
  minMethods : Option Nat := none
  /-- Tags; an empty list sets nothing. -/
  buildTags : List String := []
deriving DecidableEq, Repr, Inhabited

/-- Settings after everything was taken into account. -/
structure Settings where
  /-- Look at files that hold tests. -/
  includeTests : Setting Bool := ⟨false, .default⟩
  /-- Look at unexported declarations. -/
  includePrivate : Setting Bool := ⟨false, .default⟩
  /-- Keep doc comments. -/
  loadDocs : Setting Bool := ⟨true, .default⟩
  /-- Tags for which build constraints hold. -/
  buildTags : Setting (List String) := ⟨[], .default⟩
  /-- Fewest structs for an interface. -/
  minTypes : Setting Nat := ⟨({} : ExtractionOptions).minTypes, .default⟩
  /-- Fewest methods for an interface. -/
  minMethods : Setting Nat := ⟨({} : ExtractionOptions).minMethods, .default⟩
  /-- Patterns of import paths to leave out. -/
  excludePackages : List String := []
  /-- Patterns of struct names to leave out. -/
  excludeTypes : List String := []
  /-- Patterns of method names to leave out. -/
  excludeMethods : List String := []
  /-- Command that runs the tests. -/
  testCommand : Option (Setting (List String)) := none
deriving DecidableEq, Repr, Inhabited

/-- Read a truth value as users write it. -/
def readSwitch (key value : String) : Except Error Bool :=
  let word := String.ofList ((trimText value).toList.map Char.toLower)
  if ["1", "true", "yes", "on"].contains word then .ok true
  else if ["0", "false", "no", "off", ""].contains word then .ok false
  else .error (.invalidOptions (.badSetting key value "expected a boolean"))

/-- Read a count as users write it. -/
def readCount (key value : String) : Except Error Nat :=
  match decimal? UInt64.size (trimText value) with
  | some count => .ok count
  | none => .error (.invalidOptions (.badSetting key value "expected a non-negative integer"))

namespace Settings

/-- Override by a settings file. -/
def applyFile (settings : Settings) (file : SettingsFile) : Settings where
  includeTests := settings.includeTests.override .file file.includeTests
  includePrivate := settings.includePrivate.override .file file.includePrivate
  loadDocs := settings.loadDocs.override .file file.loadDocs
  buildTags := settings.buildTags.override .file file.buildTags
  minTypes := settings.minTypes.override .file file.minTypes
  minMethods := settings.minMethods.override .file file.minMethods
  excludePackages := file.excludePackages.getD []
  excludeTypes := file.excludeTypes.getD []
  excludeMethods := file.excludeMethods.getD []
  testCommand := file.testCommand.map fun command => ⟨command, .file⟩

/-- Variable that says whether tests are looked at. -/
def includeTestsVariable : String := "SYMDEX_INCLUDE_TESTS"

/-- Variable that says whether unexported declarations are looked at. -/
def includePrivateVariable : String := "SYMDEX_INCLUDE_PRIVATE"

/-- Variable that gives the fewest structs for an interface. -/
def minTypesVariable : String := "SYMDEX_MIN_TYPES"

/-- Variable that gives the fewest methods for an interface. -/
def minMethodsVariable : String := "SYMDEX_MIN_METHODS"

/-- All variables of the environment that set something. -/
def environmentNames : List String :=
  [includeTestsVariable, includePrivateVariable, minTypesVariable, minMethodsVariable]

/-- Override by variables of the environment. -/
def applyEnvironment (settings : Settings) (environment : String → Option String) :
    Except Error Settings := do
  let given? {α : Type} (read : String → String → Except Error α) (key : String) :
      Except Error (Option α) :=
    match environment key with
    | some value => (read key value).map some
    | none => .ok none
  let includeTests ← given? readSwitch includeTestsVariable
  let includePrivate ← given? readSwitch includePrivateVariable
  let minTypes ← given? readCount minTypesVariable
  let minMethods ← given? readCount minMethodsVariable
  return { settings with
    includeTests := settings.includeTests.override .environment includeTests
    includePrivate := settings.includePrivate.override .environment includePrivate
    minTypes := settings.minTypes.override .environment minTypes
    minMethods := settings.minMethods.override .environment minMethods }

/-- Override by flags. -/
def applyFlags (settings : Settings) (flags : FlagSettings) : Settings :=
  { settings with
    includeTests := settings.includeTests.override .flag flags.includeTests
    includePrivate := settings.includePrivate.override .flag flags.includePrivate
    minTypes := settings.minTypes.override .flag flags.minTypes
    minMethods := settings.minMethods.override .flag flags.minMethods
    buildTags := settings.buildTags.override .flag
      (if flags.buildTags.isEmpty then none else some flags.buildTags) }

/-- Settings from all sources. -/
def resolve (file : SettingsFile) (environment : String → Option String)
    (flags : FlagSettings) : Except Error Settings := do
  let settings ← (({} : Settings).applyFile file).applyEnvironment environment
  return settings.applyFlags flags

/-- What a load keeps. -/
def loadOptions (settings : Settings) : LoadOptions :=
  ⟨settings.includeTests.value, settings.includePrivate.value, settings.loadDocs.value,
    settings.buildTags.value⟩

/-- What an index retains. -/
def indexOptions (settings : Settings) : IndexOptions :=
  ⟨settings.includeTests.value, settings.includePrivate.value⟩

/-- What an extraction starts from. -/
def extractionOptions (settings : Settings) : ExtractionOptions where
  minTypes := settings.minTypes.value
  minMethods := settings.minMethods.value
  includePrivate := settings.includePrivate.value
  excludePackages := settings.excludePackages
  excludeTypes := settings.excludeTypes
  excludeMethods := settings.excludeMethods

/-- Settings as a document. -/
def document (settings : Settings) : Json :=
  .object [
    ("include_tests", settings.includeTests.document .bool),
    ("include_private", settings.includePrivate.document .bool),
    ("load_docs", settings.loadDocs.document .bool),
    ("build_tags", settings.buildTags.document .strings),
    ("min_types", settings.minTypes.document .nat),
    ("min_methods", settings.minMethods.document .nat),
    ("exclude_packages", .strings settings.excludePackages),
    ("exclude_types", .strings settings.excludeTypes),
    ("exclude_methods", .strings settings.excludeMethods),
    ("test_command", .nullable (Setting.document .strings) settings.testCommand)]

end Settings

end GoRefactor
