import GoRefactor.Edit.Basic
import GoRefactor.Glob.Expression
import GoRefactor.Go.Identifier
import GoRefactor.Go.Parser.File
import GoRefactor.Json.Value

/-!
# Errors

Every reason for which an operation is refused, with its wording, its kind and its exit code. A
fault is not an error: it stops the whole run, because a span would end before it starts.
-/

namespace GoRefactor

/-- Kinds of declared entities. -/
inductive SymbolKind where
  | package
  | type
  | struct
  | interface
  | function
  | method
  | field
  | var
  | const
  | imported
  | parameter
deriving DecidableEq, Repr, Inhabited

/-- Name of a kind in output. -/
def SymbolKind.name : SymbolKind → String
  | .package => "package"
  | .type => "type"
  | .struct => "struct"
  | .interface => "interface"
  | .function => "function"
  | .method => "method"
  | .field => "field"
  | .var => "variable"
  | .const => "constant"
  | .imported => "import"
  | .parameter => "parameter"

/-- Why options cannot be used. -/
inductive OptionsFlaw where
  | tooFewTypes
  | tooFewMethods
  | badPattern (pattern : String) (flaw : GlobFlaw)
  | overNested (limit : GlobLimit)
  | fileOutsidePackage (file package : String)
  | badLocation (text : String)
  | unknownKind (text : String)
  | badSetting (key value reason : String)
  | badSettingsFile (path : String)
  | badPlan
  | badTestCommand
  | emptyTestCommand
  | missingVariable (name : String)
deriving DecidableEq, Repr, Inhabited

/-- The flaw in words. -/
def OptionsFlaw.message : OptionsFlaw → String
  | .tooFewTypes => "min_types must be at least 1"
  | .tooFewMethods => "min_methods must be at least 1"
  | .badPattern pattern flaw =>
    s!"invalid pattern '{pattern}': error parsing glob '{pattern}': {flaw.message}"
  | .overNested limit => limit.message
  | .fileOutsidePackage file package => s!"target file {file} is not in package {package}"
  | .badLocation text => s!"invalid location '{text}', expected path:line:col"
  | .unknownKind text => s!"unknown symbol kind '{text}'"
  | .badSetting key value reason => s!"invalid value '{value}' for {key}: {reason}"
  | .badSettingsFile path => s!"invalid {path}: not a settings document"
  | .badPlan => "invalid plan: not a plan document"
  | .badTestCommand => "invalid test command JSON: expected JSON array of strings"
  | .emptyTestCommand => "invalid test command JSON: test command array cannot be empty"
  | .missingVariable name => s!"template variable '{name}' not provided"

/-- Why a module is not well formed. -/
inductive ModelFlaw where
  | outsideRoot (path : String)
  | duplicatePath (path : String)
  | mixedPackages (directory first other : String)
  | wrongKey (key path : String)
  | outsideText (path : String)
  | badSpan (path : String) (span : Span)
  | noSourceFile (package : String)
  | misplacedName (path : String) (span : Span) (kind : SymbolKind) (name found : String)
  | misplacedUse (path : String) (span : Span) (found expected : String)
deriving DecidableEq, Repr, Inhabited

/-- The flaw in words. -/
def ModelFlaw.message : ModelFlaw → String
  | .outsideRoot path => s!"file path is not relative to the module root: {path}"
  | .duplicatePath path => s!"duplicate file path: {path}"
  | .mixedPackages directory first other =>
    s!"directory '{directory}' mixes packages {first} and {other}"
  | .wrongKey key path => s!"package keyed '{key}' declares path '{path}'"
  | .outsideText path => s!"declaration outside the text of {path}"
  | .badSpan path span => s!"{path}: span {span.text} is not valid text"
  | .noSourceFile package => s!"package {package} has no source file"
  | .misplacedName path span kind name found =>
    s!"{path}: span {span.text} of {kind.name} `{name}` addresses `{found}`"
  | .misplacedUse path span found expected =>
    s!"{path}: use span {span.text} addresses `{found}`, expected `{expected}`"

/-- Why files cannot be read or written. -/
inductive FileFlaw where
  /-- The path may lead out of the root. -/
  | outsideRoot (root path : String)
  /-- The path cannot be read. -/
  | unreadable (path : String)
  /-- The path cannot be written. -/
  | unwritable (path : String)
  /-- The command cannot be run. -/
  | notRunnable (program : String)
deriving DecidableEq, Repr, Inhabited

/-- The flaw in words. -/
def FileFlaw.message : FileFlaw → String
  | .outsideRoot root path => s!"refusing to write outside {root}: {path}"
  | .unreadable path => s!"cannot read {path}"
  | .unwritable path => s!"cannot write {path}"
  | .notRunnable program => s!"cannot run {program}"

/-- Why an operation is refused. -/
inductive Error where
  /-- No symbol has the name, in a scope if one was given. -/
  | symbolNotFound (name : String) (scope : Option String)
  /-- The module has no such package. -/
  | packageNotFound (path : String)
  /-- There is no such file. -/
  | fileNotFound (path : String)
  /-- The name is already declared. -/
  | nameConflict (name existing : String)
  /-- The text cannot be a name. -/
  | invalidIdentifier (name : String) (flaw : NameFlaw)
  /-- The options cannot be used. -/
  | invalidOptions (flaw : OptionsFlaw)
  /-- The module is not well formed. -/
  | invalidModel (flaw : ModelFlaw)
  /-- The name stands for several declarations. -/
  | ambiguous (name : String) (candidates : List String)
  /-- A file cannot be scanned. -/
  | parse (file : String) (line : Nat) (flaw : ParseFlaw)
  /-- Planned edits do not apply. -/
  | apply (conflict : Conflict)
  /-- A file cannot be read or written. -/
  | io (flaw : FileFlaw)
  /-- A document has not the expected shape. -/
  | json
deriving DecidableEq, Repr, Inhabited

/-- Kinds of errors that callers tell apart. -/
inductive ErrorKind where
  | notFound
  | conflict
  | validation
  | ambiguity
  | io
deriving DecidableEq, Repr, Inhabited

/-- Name of a kind in output. -/
def ErrorKind.name : ErrorKind → String
  | .notFound => "not_found"
  | .conflict => "conflict"
  | .validation => "validation"
  | .ambiguity => "partial"
  | .io => "io"

namespace Error

/-- The error in words. -/
def message : Error → String
  | .symbolNotFound name none => s!"symbol not found: {name}"
  | .symbolNotFound name (some scope) => s!"symbol not found: {name} (in {scope})"
  | .packageNotFound path => s!"package not found: {path}"
  | .fileNotFound path => s!"file not found: {path}"
  | .nameConflict name existing => s!"name conflict: '{name}' already declared as {existing}"
  | .invalidIdentifier name flaw => s!"invalid identifier '{name}': {flaw.reason}"
  | .invalidOptions flaw => s!"invalid options: {flaw.message}"
  | .invalidModel flaw => s!"invalid model: {flaw.message}"
  | .ambiguous name candidates => s!"ambiguous name '{name}': {candidates.length} candidates"
  | .parse file line flaw => s!"parse error in {file} at line {line}: {flaw.message}"
  | .apply conflict => s!"apply error: {conflict.message}"
  | .io flaw => s!"IO error: {flaw.message}"
  | .json => "JSON error: unexpected document"

/-- The kind of an error. -/
def kind : Error → ErrorKind
  | .symbolNotFound _ _ => .notFound
  | .packageNotFound _ => .notFound
  | .fileNotFound _ => .notFound
  | .nameConflict _ _ => .conflict
  | .invalidIdentifier _ _ => .validation
  | .invalidOptions _ => .validation
  | .invalidModel _ => .validation
  | .ambiguous _ _ => .ambiguity
  | .parse _ _ _ => .io
  | .apply _ => .io
  | .io _ => .io
  | .json => .io

/-- Exit code: 2 for bad arguments, 3 for what cannot be found, 4 for files and edits, 10 for a
malformed module. -/
def code (error : Error) : Nat :=
  match error with
  | .invalidModel _ => 10
  | _ =>
    match error.kind with
    | .validation => 2
    | .conflict => 2
    | .notFound => 3
    | .ambiguity => 3
    | .io => 4

/-- Data that goes with the message. -/
def details : Error → Option Json
  | .symbolNotFound name scope =>
    some (.object [("name", .string name), ("scope", .nullable .string scope)])
  | .packageNotFound path => some (.object [("path", .string path)])
  | .fileNotFound path => some (.object [("path", .string path)])
  | .nameConflict name existing =>
    some (.object [("name", .string name), ("existing", .string existing)])
  | .ambiguous name candidates =>
    some (.object [("name", .string name), ("candidates", .strings candidates)])
  | .parse file line _ => some (.object [("file", .string file), ("line", .nat line)])
  | _ => none

end Error

/-- What stops a run: a span whose end comes before its start. -/
structure Fault where
  /-- The start. -/
  start : Nat
  /-- The end, which comes before. -/
  stop : Nat
deriving DecidableEq, Repr, Inhabited

/-- Computations that may be refused, and may be stopped by a fault. -/
abbrev Attempt := ExceptT Error (Except Fault)

namespace Attempt

/-- Refuse. -/
def refuse {α : Type} (error : Error) : Attempt α := throw error

/-- Stop. -/
def stop {α : Type} (fault : Fault) : Attempt α := ExceptT.lift (.error fault)

/-- A value that must be there. -/
def orRefuse {α : Type} (value : Option α) (error : Error) : Attempt α :=
  match value with
  | some value => pure value
  | none => refuse error

end Attempt

/-- The span between two offsets; a fault when they are out of order. -/
def Span.between (start stop : Nat) : Except Fault Span :=
  match Span.between? start stop with
  | some span => .ok span
  | none => .error ⟨start, stop⟩

end GoRefactor
