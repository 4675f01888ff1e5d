import GoRefactor.Text.Split

/-!
# File trees

Files and directories as a value. Commands read from a tree and give back a changed one; only the
outermost layer touches a disk. A directory exists when a file or another directory is below it, or
when it was made by itself.
-/

namespace GoRefactor

/-- What a file holds. -/
inductive FileContent where
  /-- Text. -/
  | text (content : String)
  /-- Bytes that are not text. -/
  | binary
deriving DecidableEq, Repr, Inhabited

/-- Names from the top of a tree down to a file or directory. -/
abbrev TreePath := List String

/-- Order of a walk that visits the entries of each directory by name. -/
def TreePath.le : TreePath → TreePath → Bool
  | [], _ => true
  | _ :: _, [] => false
  | left :: lefts, right :: rights =>
    if left == right then TreePath.le lefts rights else decide (left < right)

/-- Files by path, and directories. -/
structure FileTree where
  /-- Paths with contents, in the order of a walk. -/
  files : List (TreePath × FileContent)
  /-- Directories that were made by themselves. -/
  directories : List TreePath
deriving DecidableEq, Repr, Inhabited

namespace FileTree

/-- The tree with nothing but a directory. -/
def ofDirectory (path : TreePath) : FileTree := ⟨[], [path]⟩

/-- The file at a path. -/
def find? (tree : FileTree) (path : TreePath) : Option FileContent :=
  (tree.files.find? fun entry => entry.1 == path).map Prod.snd

/-- Files below a directory, by their paths from there. -/
def below (tree : FileTree) (directory : TreePath) : List (TreePath × FileContent) :=
  tree.files.filterMap fun (path, content) =>
    if directory.isPrefixOf path && directory.length < path.length then
      some (path.drop directory.length, content)
    else none

/-- There is such a directory; the top always is one. -/
def hasDirectory (tree : FileTree) (path : TreePath) : Bool :=
  path.isEmpty || tree.directories.any path.isPrefixOf ||
    tree.files.any fun entry => path.isPrefixOf entry.1 && path.length < entry.1.length

/-- There is such a file or directory. -/
def contains (tree : FileTree) (path : TreePath) : Bool :=
  (tree.find? path).isSome || tree.hasDirectory path

/-- Add a directory. -/
def addDirectory (tree : FileTree) (path : TreePath) : FileTree :=
  if tree.hasDirectory path then tree else { tree with directories := path :: tree.directories }

/-- Put a file at its place in the order of a walk. A file of the same path gives way to it. -/
def insertFile (path : TreePath) (content : FileContent) :
    List (TreePath × FileContent) → List (TreePath × FileContent)
  | [] => [(path, content)]
  | entry :: rest =>
    if entry.1 == path then (path, content) :: rest
    else if TreePath.le path entry.1 then (path, content) :: entry :: rest
    else entry :: insertFile path content rest

/-- Put a file into the tree. None if a directory has its path. -/
def put? (tree : FileTree) (path : TreePath) (content : FileContent) : Option FileTree :=
  if tree.hasDirectory path then none
  else some { tree with files := insertFile path content tree.files }

end FileTree

end GoRefactor
