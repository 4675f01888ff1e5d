import GoRefactor.CommandLine.Run

/-!
# The program

Reads the files that an invocation needs, carries the invocation out, writes the files that
changed and prints the result. Everything else is decided by `Invocation.run`.
-/

namespace GoRefactor.Program

/-- Text of a path from the top of the disk. -/
def pathText (path : TreePath) : String := "/" ++ "/".intercalate path

/-- The working directory. -/
def workingDirectory : IO TreePath := do
  let here ← IO.currentDir
  return (splitText '/' here.toString).filter (· != "")

/-- Content of a file on disk. -/
def readContent (path : TreePath) : IO FileContent := do
  let here ← IO.currentDir
  let bytes ← IO.FS.readBinFile (here / pathText path)
  match String.fromUTF8? bytes with
  | some content => return .text content
  | none => return .binary

/-- The name is that of a file whose content commands look at. -/
def isOfInterest (name : String) : Bool :=
  isSourceName name || name == moduleFileName || name == SettingsFile.fileName

/-- Add the files below a directory. Directories that are never looked into are left out, and files
that are of no interest are not read. -/
partial def addBelow (tree : FileTree) (directory : TreePath) : IO FileTree := do
  let here ← IO.currentDir
  let entries ← (here / pathText directory).readDir
  let mut tree := tree.addDirectory directory
  for entry in entries do
    let path := directory ++ [entry.fileName]
    if ← entry.path.isDir then
      if !isSkippedDirectory entry.fileName then tree ← addBelow tree path
    else
      let content ← if isOfInterest entry.fileName then readContent path else pure .binary
      tree := (tree.put? path content).getD tree
  return tree

/-- Add the files and directories that a path text passes, as far as it leads anywhere. -/
def addPassed (workspace : Workspace) (path : String) : IO FileTree := do
  let here ← IO.currentDir
  let mut tree := workspace.tree
  let mut place := workspace.start path
  for segment in splitText '/' path do
    let next :=
      if segment == "" || segment == "." then place
      else if segment == ".." then place.dropLast
      else place ++ [segment]
    let entry := here / pathText next
    if ← entry.isDir then tree := tree.addDirectory next
    else if ← entry.pathExists then tree := (tree.put? next (← readContent next)).getD tree
    place := next
  return tree

/-- Paths that a command names. -/
def namedPaths (invocation : Invocation) : List String :=
  invocation.shared.root :: invocation.shared.module.toList ++
    match invocation.command with
    | .plan path _ => [path]
    | _ => []

/-- The files that an invocation needs. -/
def readWorkspace (invocation : Invocation) : IO Workspace := do
  let directory ← workingDirectory
  let mut workspace : Workspace := ⟨.ofDirectory directory, directory⟩
  for path in namedPaths invocation do
    workspace := { workspace with tree := ← addPassed workspace path }
  match workspace.directory? invocation.shared.root with
  | some root => return { workspace with tree := ← addBelow workspace.tree root }
  | none => return workspace

/-- Make the directories and write the files that changed. -/
def writeChanges (before behind : FileTree) : IO Unit := do
  let here ← IO.currentDir
  for path in behind.directories do
    if !before.hasDirectory path then IO.FS.createDirAll (here / pathText path)
  for (path, content) in behind.files do
    match content with
    | .text content =>
      if before.find? path != some (.text content) then
        IO.FS.writeFile (here / pathText path) content
    | .binary => pure ()

/-- Print what a command leaves behind, and give its exit code. -/
def report (result : CommandResult) : IO UInt32 := do
  match result.printout with
  | .document json => IO.println json.pretty
  | .text content => IO.print content
  match result.printout, result.refusal with
  | .text _, some error => IO.eprintln s!"error: {error.message}"
  | _, _ => pure ()
  return result.exit.toUInt32

/-- Carry out an invocation on the files of the disk. -/
def carryOut (invocation : Invocation) (environment : String → Option String) : IO UInt32 := do
  let workspace ← readWorkspace invocation
  match invocation.run workspace environment with
  | .error fault =>
    IO.eprintln s!"span start {fault.start} is past its end {fault.stop}"
    return 101
  | .ok result =>
    writeChanges workspace.tree result.workspace.tree
    report result

/-- Variables of the environment that settings look at. -/
def readEnvironment : IO (String → Option String) := do
  let names := Settings.environmentNames
  let values ← names.mapM fun name => return (name, ← IO.getEnv name)
  return fun name => (values.lookup name).join

end GoRefactor.Program

/-- Run the program. -/
def main (arguments : List String) : IO UInt32 := do
  match GoRefactor.Invocation.read arguments with
  | .error .help =>
    IO.print GoRefactor.Invocation.helpText
    return 0
  | .error .version =>
    IO.print GoRefactor.Invocation.versionText
    return 0
  | .error .nothingAsked =>
    IO.eprint GoRefactor.Invocation.helpText
    return 2
  | .error .misuse =>
    IO.eprintln "error: the arguments are not those of any command"
    return 2
  | .ok invocation =>
    GoRefactor.Program.carryOut invocation (← GoRefactor.Program.readEnvironment)
