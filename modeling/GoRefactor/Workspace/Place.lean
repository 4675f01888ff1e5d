import GoRefactor.Workspace.FileTree

/-!
# Paths as texts

A workspace is a file tree seen from a working directory. A path text is followed name by name:
every step starts from a directory that exists, so two dots behind a missing name lead nowhere, and
neither does a slash behind the name of a file. Writing makes the directories that are missing on
the way.
-/

namespace GoRefactor

/-- Two paths as one. A second path from the top of the tree stands for itself. -/
def joinPath (path more : String) : String :=
  if more.toList.head? == some '/' || path.isEmpty then more
  else if path.toList.getLast? == some '/' then path ++ more
  else path ++ "/" ++ more

/-- Name of the file or directory that a path text ends with, if it ends with a name. -/
def finalName? (text : String) : Option String :=
  match ((splitText '/' text).filter fun segment => segment != "" && segment != ".").getLast? with
  | some ".." => none
  | name => name

/-- Most bytes that a name can have. -/
def longestName : Nat := 255

/-- A file or directory can have this name. -/
def isEntryName (name : String) : Bool :=
  name.utf8ByteSize ≤ longestName && !name.toList.contains '\x00'

namespace FileTree

/-- One step along a path: a dot stays, two dots go up, a name goes down to an entry. -/
def step? (tree : FileTree) (place : TreePath) (segment : String) : Option TreePath :=
  if !tree.hasDirectory place then none
  else if segment == "" || segment == "." then some place
  else if segment == ".." then some place.dropLast
  else if tree.contains (place ++ [segment]) then some (place ++ [segment])
  else none

/-- One step along a path to a directory, which is made if nothing has its name. -/
def makeStep? (state : FileTree × TreePath) (segment : String) : Option (FileTree × TreePath) :=
  let (tree, place) := state
  if segment == "" || segment == "." then some (tree, place)
  else if segment == ".." then some (tree, place.dropLast)
  else if isEntryName segment && (tree.find? (place ++ [segment])).isNone then
    some (tree.addDirectory (place ++ [segment]), place ++ [segment])
  else none

end FileTree

/-- Files seen from a working directory. -/
structure Workspace where
  /-- The files. -/
  tree : FileTree
  /-- The working directory. -/
  directory : TreePath
deriving DecidableEq, Repr, Inhabited

namespace Workspace

/-- Where a path text starts: at the top of the tree, or in the working directory. -/
def start (workspace : Workspace) (path : String) : TreePath :=
  if path.toList.head? == some '/' then [] else workspace.directory

/-- The file or directory that a path text leads to. -/
def locate? (workspace : Workspace) (path : String) : Option TreePath :=
  if path.isEmpty then none
  else (splitText '/' path).foldlM workspace.tree.step? (workspace.start path)

/-- The file that a path text leads to. -/
def find? (workspace : Workspace) (path : String) : Option FileContent :=
  (workspace.locate? path).bind workspace.tree.find?

/-- The directory that a path text leads to. -/
def directory? (workspace : Workspace) (path : String) : Option TreePath :=
  (workspace.locate? path).filter workspace.tree.hasDirectory

/-- Write a file. None if that is not possible: a directory has the path, or a file stands on the
way to it. -/
def write? (workspace : Workspace) (path : String) (content : FileContent) :
    Option Workspace := do
  let segments := splitText '/' path
  let name ← segments.getLast?
  let (tree, place) ← segments.dropLast.foldlM FileTree.makeStep?
    (workspace.tree, workspace.start path)
  if isEntryName name then
    let tree ← tree.put? (place ++ [name]) content
    return { workspace with tree }
  else none

end Workspace

end GoRefactor
