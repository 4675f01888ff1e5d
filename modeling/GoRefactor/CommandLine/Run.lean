import GoRefactor.CommandLine.Invocation
import GoRefactor.Json.Printer
import GoRefactor.Report.Query
import GoRefactor.TestCommand.Run
import GoRefactor.Transform.Document
import GoRefactor.Workspace.Save
import GoRefactor.Workspace.Settings

/-!
# Carrying out invocations

A command is a function of the arguments, the environment, the files and of how processes end: it
gives an exit code, what to print, and the files as they are afterwards.
-/

namespace GoRefactor

/-- What a command prints. -/
inductive Printout where
  /-- A document. -/
  | document (json : Json)
  /-- Plain text. -/
  | text (content : String)

/-- What a command leaves behind. -/
structure CommandResult where
  /-- Exit code. -/
  exit : Nat
  /-- What is printed. -/
  printout : Printout
  /-- Why the command was refused, if it was. -/
  refusal : Option Error
  /-- The files. -/
  workspace : Workspace

/-- What a command works on. -/
structure Session where
  /-- The shared options. -/
  shared : SharedOptions
  /-- The files. -/
  workspace : Workspace
  /-- Variables of the environment. -/
  environment : String → Option String
  /-- How the processes of test commands end. -/
  spawn : Spawn

namespace CommandResult

/-- A command that was carried out. -/
def done (workspace : Workspace) (printout : Printout) : CommandResult :=
  ⟨0, printout, none, workspace⟩

/-- A command that was refused. The reason is a document, or goes to the error stream. -/
def refused (format : OutputFormat) (workspace : Workspace) (error : Error) : CommandResult :=
  match format with
  | .json => ⟨error.code, .document (Report.refusal error), some error, workspace⟩
  | .text => ⟨error.code, .text "", some error, workspace⟩

end CommandResult

namespace Session

/-- The root directory. -/
def root (session : Session) : String := session.shared.root

/-- Settings from the settings file, the environment and flags. -/
def settings (session : Session) (minTypes minMethods : Option Nat) : Except Error Settings := do
  let file ← SettingsFile.ofDirectory session.workspace session.root
  let shared := session.shared
  Settings.resolve file session.environment {
    includeTests := if shared.includeTests then some true else none
    includePrivate := if shared.includePrivate then some true else none
    minTypes, minMethods
    buildTags := shared.tags }

/-- Text of a file that must be there. -/
def readFile (session : Session) (path : String) : Except Error String :=
  match session.workspace.find? path with
  | some content => content.read path
  | none =>
    if (session.workspace.directory? path).isSome then .error (.io (.unreadable path))
    else .error (.fileNotFound path)

/-- The module, from a snapshot if one is given, else from the root directory. -/
def load (session : Session) (settings : Settings) : Except Error Module :=
  match session.shared.module with
  | some path => do Module.ofSnapshot (← session.readFile path) settings.loadOptions
  | none => Module.ofDirectory session.workspace session.root none settings.loadOptions

/-- Settings and module. -/
def prepare (session : Session) (minTypes minMethods : Option Nat) :
    Except Error (Settings × Module) := do
  let settings ← session.settings minTypes minMethods
  return (settings, ← session.load settings)

/-- Print in the form that is asked for. -/
def print (session : Session) (document : Json) (text : String) : Printout :=
  match session.shared.format with
  | .json => .document document
  | .text => .text text

/-- Carry out a query. -/
def query (session : Session) (ask : Settings → Module → Attempt Printout) :
    Except Fault CommandResult := do
  let format := session.shared.format
  match session.prepare none none with
  | .error error => return .refused format session.workspace error
  | .ok (settings, module) =>
    match ← (ask settings module).run with
    | .error error => return .refused format session.workspace error
    | .ok printout => return .done session.workspace printout

/-- Print a listing of symbols. -/
def printSymbols (session : Session) (listing : SymbolListing) : Printout :=
  session.print (Report.symbolListing listing) listing.text

/-- List symbols. -/
def listSymbols (session : Session) (name kind file parent : Option String) :
    Except Fault CommandResult :=
  session.query fun settings module => do
    let kind ← kind.mapM fun name => ExceptT.mk (.ok (SymbolKind.read name))
    let listing ← module.listSymbols settings.indexOptions ⟨name, kind, file, parent⟩
    return session.printSymbols listing

/-- A transformation that was carried out. -/
structure Transformed where
  /-- Name of the transformation. -/
  name : String
  /-- Nothing was to change. -/
  dryRun : Bool
  /-- The module afterwards. -/
  module : Module
  /-- What it reports. -/
  outcome : Outcome

/-- A transformation in words: the summary, the warnings, a preview or the differences, and the
verdict of the tests. -/
def transformText (transformed : Transformed) (tests : Option TestRun) : String :=
  let outcome := transformed.outcome
  outcome.summary ++ "\n" ++
    String.join (outcome.warnings.map fun warning => s!"warning: {warning}\n") ++
    (if transformed.dryRun then outcome.preview else unifiedDiff outcome.changes) ++
    match tests with
    | some run =>
      let verdict := if run.success then "passed" else "FAILED"
      let command := " ".intercalate run.words
      s!"tests ({command}): {verdict}\n"
    | none => ""

/-- Report a transformation. A refused one gives the exit code of its error, failed tests give
one. -/
def reportTransform (session : Session) (transformed : Transformed) (workspace : Workspace)
    (written : Option (List String)) (tests : Option TestRun) : CommandResult :=
  let outcome := transformed.outcome
  let members :=
    Report.transformMembers transformed.name transformed.dryRun outcome written ++
      Json.present "tests" TestRun.document tests
  let exit := match outcome.failure with
    | some error => error.code
    | none => if tests.all TestRun.success then 0 else 1
  ⟨exit, session.print (.object members) (transformText transformed tests), none, workspace⟩

/-- Write the snapshot, if the module came from one. -/
def saveSnapshot (session : Session) (module : Module) (workspace : Workspace) :
    Workspace × Option Error :=
  match session.shared.module with
  | none => (workspace, none)
  | some path =>
    match workspace.write? path (.text module.snapshotText) with
    | some written => (written, none)
    | none => (workspace, some (.io (.unwritable path)))

/-- Run the tests in the root directory, if they are asked for and there is a command. -/
def runTests (session : Session) (settings : Settings) (apply : ApplyOptions)
    (workspace : Workspace) : Except Error (Option TestRun) := do
  if apply.test then
    let hasModuleFile := (workspace.find? (joinPath session.root moduleFileName)).isSome
    match ← TestCommand.resolve apply.testCommand (settings.testCommand.map (·.value))
        hasModuleFile session.root with
    | none => return none
    | some command =>
      if (workspace.directory? session.root).isNone then
        throw (.io (.notRunnable (command.words.headD "")))
      return some (← TestCommand.run session.spawn session.root apply.timeout command.words)
  else return none

/-- Save what a transformation changed, run the tests and report. -/
def finish (session : Session) (settings : Settings) (apply : ApplyOptions)
    (transformed : Transformed) : CommandResult :=
  let format := session.shared.format
  if !transformed.outcome.success || transformed.dryRun then
    session.reportTransform transformed session.workspace none none
  else
    match session.workspace.save session.root transformed.module with
    | (workspace, .error error) => .refused format workspace error
    | (workspace, .ok files) =>
      match session.saveSnapshot transformed.module workspace with
      | (workspace, some error) => .refused format workspace error
      | (workspace, none) =>
        match session.runTests settings apply workspace with
        | .error error => .refused format workspace error
        | .ok tests =>
          session.reportTransform transformed workspace (some (files.map (·.path))) tests

/-- Carry out a transformation that is made from the settings. -/
def transform (session : Session) (minTypes minMethods : Option Nat) (apply : ApplyOptions)
    (make : Settings → Except Error Transformation) : Except Fault CommandResult := do
  let format := session.shared.format
  match session.prepare minTypes minMethods with
  | .error error => return .refused format session.workspace error
  | .ok (settings, module) =>
    match make settings with
    | .error error => return .refused format session.workspace error
    | .ok transformation =>
      let (changed, outcome) ← transformation.run module
      return session.finish settings apply
        ⟨transformation.name, transformation.isDry, changed, outcome⟩

/-- Read a plan. A dry run makes every step dry. -/
def readPlan (session : Session) (path : String) (dryRun : Bool) :
    Except Error Transformation :=
  match session.readFile path with
  | .error _ => .error (.fileNotFound path)
  | .ok text =>
    match (Json.read? text).bind Document.transformation? with
    | none => .error (.invalidOptions .badPlan)
    | some plan => .ok (if dryRun then plan.dry else plan)

/-- Carry out a command. -/
def run (session : Session) : Command → Except Fault CommandResult
  | .symbols name kind file parent => session.listSymbols name kind file parent
  | .references name parent package =>
    session.query fun settings module => do
      let listing ← module.listReferences settings.indexOptions name parent package
      return session.print (Report.referenceListing listing) listing.text
  | .declaration location =>
    session.query fun settings module => do
      return session.printSymbols (← module.symbolAtLocation settings.indexOptions location)
  | .implementations interface package =>
    session.query fun settings module => do
      return session.printSymbols
        (← module.listImplementations settings.indexOptions interface package)
  | .rename old new parent package apply =>
    session.transform none none apply fun _ =>
      .ok (.rename ⟨old, new, parent, package, apply.dryRun⟩)
  | .extract minTypes minMethods packages types methods name targetPackage targetFile newFiles
      apply =>
    session.transform minTypes minMethods apply fun settings =>
      let base := settings.extractionOptions
      .ok (.extract { base with
        excludePackages := base.excludePackages ++ packages
        excludeTypes := base.excludeTypes ++ types
        excludeMethods := base.excludeMethods ++ methods
        interfaceName := name
        targetPackage, targetFile
        createNewFiles := newFiles
        dryRun := apply.dryRun })
  | .plan path apply =>
    session.transform none none apply fun _ => session.readPlan path apply.dryRun

end Session

/-- Carry out an invocation on files. -/
def Invocation.run (invocation : Invocation) (workspace : Workspace)
    (environment : String → Option String) (spawn : Spawn := Shell.spawn) :
    Except Fault CommandResult :=
  (Session.mk invocation.shared workspace environment spawn).run invocation.command

end GoRefactor
