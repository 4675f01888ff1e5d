import GoRefactor.Text.Blank
import GoRefactor.Text.Split

/-!
# The module directive

The path of a module is stated in its `go.mod` file, on the first line that says `module`.
-/

namespace GoRefactor

/-- Drop double quotes on both sides. -/
def dropQuotes (cs : List Char) : List Char :=
  ((cs.dropWhile (· == '"')).reverse.dropWhile (· == '"')).reverse

/-- The path that a line states, if it is a module directive. -/
def directivePath? (line : List Char) : Option (List Char) :=
  let trimmed := Blank.trim line
  if "module".toList.isPrefixOf trimmed then
    let rest := trimmed.drop 6
    if rest.head?.any isBlank then
      let path := dropQuotes (Blank.trim rest)
      if path.isEmpty then none else some path
    else none
  else none

/-- The path of the first module directive. -/
def modulePath? (goMod : String) : Option String :=
  ((linesOf goMod.toList).findSome? directivePath?).map String.ofList

end GoRefactor
