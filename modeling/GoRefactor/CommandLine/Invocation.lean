import GoRefactor.CommandLine.Arguments
import GoRefactor.Text.Decimal

/-!
# Invocations

The commands of the program, with their options, and how they are read from arguments. Options
that all commands share may stand before or behind the command; behind it they count more.
-/

namespace GoRefactor

/-- Form of the output. -/
inductive OutputFormat where
  | json
  | text
deriving DecidableEq, Repr, Inhabited

/-- Options that all commands share. -/
structure SharedOptions where
  /-- Snapshot to load in place of a source tree. -/
  module : Option String := none
  /-- Root directory of the workspace. -/
  root : String := "."
  /-- Look at tests too. -/
  includeTests : Bool := false
  /-- Look at unexported declarations too. -/
  includePrivate : Bool := false
  /-- Tags for build constraints. -/
  tags : List String := []
  /-- Form of the output. -/
  format : OutputFormat := .json
deriving DecidableEq, Repr, Inhabited

/-- Options that all transformations share. -/
structure ApplyOptions where
  /-- Only say what would change. -/
  dryRun : Bool := false
  /-- Run the tests afterwards. -/
  test : Bool := false
  /-- Command that runs the tests. -/
  testCommand : Option String := none
  /-- Seconds that the tests may take. -/
  timeout : Nat
deriving DecidableEq, Repr, Inhabited

/-- A command with its arguments. -/
inductive Command where
  /-- List symbols. -/
  | symbols (name kind file parent : Option String)
  /-- List references. -/
  | references (name : String) (parent package : Option String)
  /-- Show the declaration at a location. -/
  | declaration (location : String)
  /-- List the structs that implement an interface. -/
  | implementations (interface : String) (package : Option String)
  /-- Rename declarations. -/
  | rename (old new : String) (parent package : Option String) (apply : ApplyOptions)
  /-- Extract interfaces. -/
  | extract (minTypes minMethods : Option Nat)
      (excludePackages excludeTypes excludeMethods : List String)
      (name targetPackage targetFile : Option String) (newFiles : Bool) (apply : ApplyOptions)
  /-- Carry out a plan. -/
  | plan (path : String) (apply : ApplyOptions)
deriving Repr, Inhabited

/-- A command and the shared options. -/
structure Invocation where
  /-- The shared options. -/
  shared : SharedOptions
  /-- The command. -/
  command : Command
deriving Repr, Inhabited

namespace Invocation

/-- The text is not empty, as paths must not be. -/
def isPath (text : String) : Bool := !text.isEmpty

/-- The text is a number of 64 bits. -/
def isCount (text : String) : Bool := (decimal? UInt64.size text).isSome

/-- Options that all commands share. -/
def sharedSpecs : List OptionSpec :=
  [⟨"module", .single, isPath⟩,
    ⟨"root", .single, isPath⟩,
    ⟨"include-tests", .flag, fun _ => true⟩,
    ⟨"include-private", .flag, fun _ => true⟩,
    ⟨"tags", .list, fun _ => true⟩,
    ⟨"format", .single, ["json", "text"].contains⟩,
    ⟨"log-level", .single, ["trace", "debug", "info", "warn", "error"].contains⟩,
    ⟨"log-format", .single, ["text", "json"].contains⟩]

/-- Options that all transformations share. -/
def applySpecs : List OptionSpec :=
  [⟨"dry-run", .flag, fun _ => true⟩,
    ⟨"test", .flag, fun _ => true⟩,
    ⟨"test-command", .single, fun _ => true⟩,
    ⟨"timeout", .single, isCount⟩]

/-- Options that take one text each. -/
def textSpecs (names : List String) : List OptionSpec :=
  names.map fun name => ⟨name, .single, fun _ => true⟩

/-- Options and operands of the commands. -/
def commandSpecs : List (String × CommandSpec) :=
  let any : String → Bool := fun _ => true
  [("symbols", ⟨sharedSpecs ++ textSpecs ["name", "kind", "file", "parent"], [], false⟩),
    ("refs", ⟨sharedSpecs ++ textSpecs ["parent", "package"], [any], false⟩),
    ("at", ⟨sharedSpecs, [any], false⟩),
    ("impls", ⟨sharedSpecs ++ textSpecs ["package"], [any], false⟩),
    ("rename", ⟨sharedSpecs ++ applySpecs ++ textSpecs ["parent", "package"], [any, any], false⟩),
    ("extract", ⟨sharedSpecs ++ applySpecs ++
      [⟨"min-types", .single, isCount⟩, ⟨"min-methods", .single, isCount⟩,
        ⟨"exclude-package", .repeated, any⟩, ⟨"exclude-type", .repeated, any⟩,
        ⟨"exclude-method", .repeated, any⟩, ⟨"new-files", .flag, any⟩] ++
      textSpecs ["name", "target-package", "target-file"], [], false⟩),
    ("apply", ⟨sharedSpecs ++ applySpecs, [isPath], false⟩)]

/-- The shared options, given before and behind the command. -/
def readShared (before behind : GivenArguments) : SharedOptions :=
  let pick (name : String) : List String :=
    if behind.has name then behind.values name else before.values name
  { module := (pick "module").head?
    root := (pick "root").head?.getD "."
    includeTests := !(pick "include-tests").isEmpty
    includePrivate := !(pick "include-private").isEmpty
    tags := pick "tags"
    format := if (pick "format").head? == some "text" then .text else .json }

/-- A number that an option gives. -/
def count? (given : GivenArguments) (name : String) : Option Nat :=
  (given.value? name).bind (decimal? UInt64.size)

/-- The options that transformations share. A test command needs tests to be asked for. -/
def readApply (given : GivenArguments) : Except UsageFlaw ApplyOptions :=
  if given.has "test-command" && !given.has "test" then .error .misuse
  else
    .ok { dryRun := given.has "dry-run"
          test := given.has "test"
          testCommand := given.value? "test-command"
          timeout := (count? given "timeout").getD 300 }

/-- The command that a name and its arguments stand for. -/
def readCommand (name : String) (given : GivenArguments) : Except UsageFlaw Command := do
  match name, given.operands with
  | "symbols", [] =>
    return .symbols (given.value? "name") (given.value? "kind") (given.value? "file")
      (given.value? "parent")
  | "refs", [name] => return .references name (given.value? "parent") (given.value? "package")
  | "at", [location] => return .declaration location
  | "impls", [interface] => return .implementations interface (given.value? "package")
  | "rename", [old, new] =>
    return .rename old new (given.value? "parent") (given.value? "package") (← readApply given)
  | "extract", [] =>
    return .extract (count? given "min-types") (count? given "min-methods")
      (given.values "exclude-package") (given.values "exclude-type") (given.values "exclude-method")
      (given.value? "name") (given.value? "target-package") (given.value? "target-file")
      (given.has "new-files") (← readApply given)
  | "apply", [path] => return .plan path (← readApply given)
  | _, _ => .error .misuse

/-- What is printed when the version is asked for. -/
def versionText : String := "symdex 0.1.0\n"

/-- What is printed when help is asked for. -/
def helpText : String :=
  "Commands: " ++ ", ".intercalate (commandSpecs.map Prod.fst) ++ "\n"

/-- Command that shows help. -/
def helpCommand : String := "help"

/-- The name is that of a command. -/
def isCommand (name : String) : Bool :=
  name == helpCommand || commandSpecs.any fun entry => entry.1 == name

/-- What comes of asking for help on the given commands: only one can be shown. -/
def helpOn : List String → UsageFlaw
  | [] => .help
  | [name] => if isCommand name then .help else .misuse
  | _ => .misuse

/-- Read an invocation. -/
def read (arguments : List String) : Except UsageFlaw Invocation := do
  match ← (CommandSpec.mk sharedSpecs [] true).take isCommand {} arguments with
  | (before, none) => .error (if before.options.isEmpty then .nothingAsked else .misuse)
  | (before, some (name, rest)) =>
    match commandSpecs.find? fun entry => entry.1 == name with
    | none => .error (helpOn rest)
    | some (_, spec) =>
      let behind ← spec.takeAll rest
      return ⟨readShared before behind, ← readCommand name behind⟩

end Invocation

end GoRefactor
