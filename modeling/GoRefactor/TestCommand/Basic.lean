import GoRefactor.Error
import GoRefactor.Json.Reader
import GoRefactor.Json.Shape

/-!
# Test commands

A test command is a program and its arguments. It is given on the command line, in the settings
file, or found from the kind of project. The mark of the workspace stands for the root directory.
-/

namespace GoRefactor

/-- Where a test command is from. -/
inductive TestCommandSource where
  /-- A flag. -/
  | flag
  /-- The settings file. -/
  | settings
  /-- The project's module file. -/
  | moduleFile
deriving DecidableEq, Repr, Inhabited

namespace TestCommandSource

/-- Name of a source in output. -/
def name : TestCommandSource → String
  | .flag => "cli_flag"
  | .settings => "project_config"
  | .moduleFile => "go_mod"

/-- A source in words. -/
def label : TestCommandSource → String
  | .flag => "--test-command flag"
  | .settings => "symdex.json"
  | .moduleFile => "go.mod"

end TestCommandSource

/-- A test command ready to run. -/
structure TestCommand where
  /-- The program and its arguments. -/
  words : List String
  /-- Where it is from. -/
  source : TestCommandSource
deriving DecidableEq, Repr, Inhabited

/-- Put a value in place of every occurrence of a mark; `skip` characters belong to an occurrence
already replaced. -/
def replaceMark (mark value : List Char) (skip : Nat) : List Char → List Char
  | [] => []
  | c :: rest =>
    match skip with
    | left + 1 => replaceMark mark value left rest
    | 0 =>
      if mark.isPrefixOf (c :: rest) then value ++ replaceMark mark value (mark.length - 1) rest
      else c :: replaceMark mark value 0 rest

/-- The mark occurs in the text. -/
def hasMark (mark : List Char) : List Char → Bool
  | [] => mark.isEmpty
  | c :: rest => mark.isPrefixOf (c :: rest) || hasMark mark rest

namespace TestCommand

/-- Mark that stands for the root directory. -/
def workspaceMark : List Char := "\x7bworkspace\x7d".toList

/-- Read a command: a list of texts that is not empty. -/
def read (text : String) : Except Error (List String) :=
  match (Json.read? text).bind (Json.list? Json.text?) with
  | none => .error (.invalidOptions .badTestCommand)
  | some [] => .error (.invalidOptions .emptyTestCommand)
  | some words => .ok words

/-- Put the root directory in place of its mark. -/
def expandWord (workspace : Option String) (word : String) : Except Error String :=
  if hasMark workspaceMark word.toList then
    match workspace with
    | some root => .ok (String.ofList (replaceMark workspaceMark root.toList 0 word.toList))
    | none => .error (.invalidOptions (.missingVariable "workspace"))
  else .ok word

/-- Put the root directory in place of its mark in every word. -/
def expand (workspace : Option String) (words : List String) : Except Error (List String) :=
  words.mapM (expandWord workspace)

/-- Command for a project with a module file. -/
def forModuleFile : List String := ["go", "test", "./..."]

/-- The command to use: the one given by a flag, else the one from the settings if it has words,
else the one for a project with a module file. -/
def choose (flag : Option String) (settings : Option (List String)) (hasModuleFile : Bool) :
    Except Error (Option (List String × TestCommandSource)) :=
  match flag with
  | some text => (read text).map fun words => some (words, .flag)
  | none =>
    match settings.filter fun words => !words.isEmpty with
    | some words => .ok (some (words, .settings))
    | none => .ok (if hasModuleFile then some (forModuleFile, .moduleFile) else none)

/-- The command to run in a root directory, if there is one. -/
def resolve (flag : Option String) (settings : Option (List String)) (hasModuleFile : Bool)
    (workspace : String) : Except Error (Option TestCommand) := do
  match ← choose flag settings hasModuleFile with
  | none => return none
  | some (words, source) => return some ⟨← expand (some workspace) words, source⟩

end TestCommand

end GoRefactor
