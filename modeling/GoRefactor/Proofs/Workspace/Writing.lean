import GoRefactor.Proofs.Module.Relative
import GoRefactor.Workspace.Place

/-!
# Where files are written

A path text leads to one place of the tree, whatever the tree holds: names go down, two dots go up.
Writing a file changes what is found at that place and at no other. Behind a root, the path of a
file that is relative to its module leads to the root's place followed by its segments, which are
plain names. So it cannot leave the root.
-/

namespace GoRefactor

namespace FileTree

/-- A file that is put into the walk is found at its path, and hides no other. -/
theorem find?_insertFile (path other : TreePath) (content : FileContent)
    (files : List (TreePath × FileContent)) :
    ((insertFile path content files).find? fun entry => entry.1 == other) =
      if path = other then some (path, content) else files.find? fun entry => entry.1 == other := by
  have head : ∀ rest : List (TreePath × FileContent),
      (((path, content) :: rest).find? fun entry => entry.1 == other) =
        if path = other then some (path, content)
        else rest.find? fun entry => entry.1 == other := by
    intro rest
    by_cases same : path = other
    · simp [same]
    · have missed : (path == other) = false := beq_eq_false_iff_ne.mpr same
      simp only [List.find?_cons, missed, if_neg same]
  induction files with
  | nil => exact head []
  | cons entry rest ih =>
    rw [insertFile]
    split
    · rename_i replaced
      have equal : entry.1 = path := beq_iff_eq.mp replaced
      rw [head rest]
      by_cases same : path = other
      · simp [same]
      · have missed : (entry.1 == other) = false := by
          rw [beq_eq_false_iff_ne, equal]
          exact same
        simp only [List.find?_cons, missed, if_neg same]
    · split
      · exact head (entry :: rest)
      · rename_i replaced _
        have apart : entry.1 ≠ path := fun equal => replaced (beq_iff_eq.mpr equal)
        rw [List.find?_cons, List.find?_cons, ih]
        by_cases same : path = other
        · have missed : (entry.1 == other) = false := by
            rw [beq_eq_false_iff_ne, ← same]
            exact apart
          simp [same, missed]
        · simp [same]

/-- A file that is put into the tree is found at its path, and hides no other. -/
theorem find?_put? {tree written : FileTree} {path : TreePath} {content : FileContent}
    (put : tree.put? path content = some written) (other : TreePath) :
    written.find? other = if path = other then some content else tree.find? other := by
  unfold put? at put
  split at put
  · cases put
  · cases put
    unfold find?
    rw [find?_insertFile]
    by_cases same : path = other
    · simp [same]
    · simp [same]

/-- A directory that is made hides no file. -/
@[simp]
theorem find?_addDirectory (tree : FileTree) (path other : TreePath) :
    (tree.addDirectory path).find? other = tree.find? other := by
  unfold addDirectory
  split
  · rfl
  · rfl

end FileTree

/-- The place that one segment of a path leads to: a dot stays, two dots go up, a name goes down. -/
def TreePath.follow (place : TreePath) (segment : String) : TreePath :=
  if segment == "" || segment == "." then place
  else if segment == ".." then place.dropLast
  else place ++ [segment]

namespace FileTree

/-- A step that makes directories goes where the segment leads, and keeps the files. -/
theorem makeStep?_spec {tree made : FileTree} {place reached : TreePath} {segment : String}
    (stepped : makeStep? (tree, place) segment = some (made, reached)) :
    reached = TreePath.follow place segment ∧ ∀ other, made.find? other = tree.find? other := by
  unfold makeStep? at stepped
  unfold TreePath.follow
  simp only at stepped
  split at stepped
  · rename_i stays
    cases stepped
    rw [if_pos stays]
    exact ⟨rfl, fun _ => rfl⟩
  · rename_i moves
    rw [if_neg moves]
    split at stepped
    · rename_i up
      cases stepped
      rw [if_pos up]
      exact ⟨rfl, fun _ => rfl⟩
    · rename_i down
      rw [if_neg down]
      split at stepped
      · cases stepped
        exact ⟨rfl, fun other => find?_addDirectory tree _ other⟩
      · cases stepped

/-- Steps that make directories go where the segments lead, and keep the files. -/
theorem foldlM_makeStep?_spec {segments : List String} {tree made : FileTree}
    {place reached : TreePath}
    (stepped : segments.foldlM makeStep? (tree, place) = some (made, reached)) :
    reached = segments.foldl TreePath.follow place ∧
      ∀ other, made.find? other = tree.find? other := by
  induction segments generalizing tree place with
  | nil =>
    cases stepped
    exact ⟨rfl, fun _ => rfl⟩
  | cons segment rest ih =>
    rw [List.foldlM_cons] at stepped
    obtain ⟨⟨between, next⟩, first, later⟩ := Option.bind_eq_some_iff.mp stepped
    obtain ⟨there, kept⟩ := makeStep?_spec first
    obtain ⟨beyond, kept'⟩ := ih later
    refine ⟨?_, fun other => (kept' other).trans (kept other)⟩
    rw [beyond, there, List.foldl_cons]

end FileTree

/-- A plain segment goes down. -/
theorem TreePath.follow_plain {segment : String} (plain : IsPlainSegment segment)
    (place : TreePath) : place.follow segment = place ++ [segment] := by
  obtain ⟨filled, moves, down⟩ := plain
  simp [TreePath.follow, filled, moves, down]

/-- Plain segments go down one by one. -/
theorem TreePath.foldl_follow_plain {segments : List String}
    (plain : ∀ segment ∈ segments, IsPlainSegment segment) (place : TreePath) :
    segments.foldl TreePath.follow place = place ++ segments := by
  induction segments generalizing place with
  | nil => simp
  | cons segment rest ih =>
    rw [List.forall_mem_cons] at plain
    rw [List.foldl_cons, follow_plain plain.1, ih plain.2, List.append_assoc,
      List.singleton_append]

/-- A path that is relative to a module does not start at the top of the tree. -/
theorem head_of_isModuleRelative {path : String} (relative : isModuleRelative path = true) :
    (path.toList.head? == some '/') = false := by
  rw [beq_eq_false_iff_ne]
  intro slash
  cases chars : path.toList with
  | nil =>
    rw [chars] at slash
    cases slash
  | cons c cs =>
    rw [chars] at slash
    cases slash
    have member : "" ∈ splitText '/' path := by
      unfold splitText
      rw [chars, splitChars]
      simp
    exact (plain_of_isModuleRelative relative "" member).1 rfl

namespace Workspace

/-- The place that a path text leads to. -/
def placeOf (workspace : Workspace) (path : String) : TreePath :=
  (splitText '/' path).foldl TreePath.follow (workspace.start path)

/-- **Writing a file changes one place.** If the path ends in a plain name, the place is the one
that the path leads to. -/
theorem write?_spec {workspace written : Workspace} {path : String} {content : FileContent}
    (done : workspace.write? path content = some written)
    (named : ∀ name ∈ (splitText '/' path).getLast?, IsPlainSegment name) :
    written.directory = workspace.directory ∧ ∀ other,
      written.tree.find? other =
        if workspace.placeOf path = other then some content else workspace.tree.find? other := by
  unfold write? at done
  obtain ⟨name, last, done⟩ := Option.bind_eq_some_iff.mp done
  obtain ⟨⟨made, place⟩, stepped, done⟩ := Option.bind_eq_some_iff.mp done
  simp only at done
  split at done
  · obtain ⟨tree, put, returned⟩ := Option.bind_eq_some_iff.mp done
    cases returned
    obtain ⟨reached, kept⟩ := FileTree.foldlM_makeStep?_spec stepped
    -- The segments are those in front of the name, and the name.
    obtain ⟨front, whole⟩ := List.getLast?_eq_some_iff.mp last
    have there : workspace.placeOf path = place ++ [name] := by
      unfold placeOf
      rw [whole, List.dropLast_concat] at reached
      rw [whole, List.foldl_append, ← reached, List.foldl_cons, List.foldl_nil,
        TreePath.follow_plain (named name last)]
    refine ⟨rfl, fun other => ?_⟩
    rw [FileTree.find?_put? put, there, kept]
  · cases done

/-- A longer path starts where the path starts. -/
theorem start_append (workspace : Workspace) {path : String} (filled : path ≠ "") (more : String) :
    workspace.start (path ++ more) = workspace.start path := by
  unfold start
  cases chars : path.toList with
  | nil => exact absurd (String.toList_inj.mp chars) filled
  | cons c cs =>
    rw [String.toList_append, chars]
    rfl

/-- What stands behind a slash goes on from where the path leads. -/
theorem placeOf_append_slash (workspace : Workspace) {path more : String} (filled : path ≠ "")
    (plain : ∀ segment ∈ splitText '/' more, IsPlainSegment segment) :
    workspace.placeOf (path ++ "/" ++ more) = workspace.placeOf path ++ splitText '/' more := by
  have slash : "/".toList = ['/'] := by decide
  unfold placeOf
  rw [splitText_append slash, List.foldl_append, TreePath.foldl_follow_plain plain,
    String.append_assoc, start_append workspace filled]

/-- A slash at the end does not change where a path leads. -/
theorem placeOf_slash (workspace : Workspace) {path : String} (filled : path ≠ "") :
    workspace.placeOf (path ++ "/") = workspace.placeOf path := by
  have slash : "/".toList = ['/'] := by decide
  have segments : splitText '/' (path ++ "/") = splitText '/' path ++ [""] := by
    have cut := splitText_append slash path ""
    rw [String.append_empty] at cut
    exact cut
  unfold placeOf
  rw [segments, List.foldl_append, start_append workspace filled]
  rfl

/-- A path below a root is the path alone without a root, and else it stands behind one slash. -/
theorem joinPath_cases (root : String) {path : String} (relative : isModuleRelative path = true) :
    (root = "" ∧ joinPath root path = path) ∨
    (∃ front, root = front ++ "/" ∧ joinPath root path = front ++ "/" ++ path) ∨
    (root ≠ "" ∧ joinPath root path = root ++ "/" ++ path) := by
  have slash : "/".toList = ['/'] := by decide
  unfold joinPath
  rw [head_of_isModuleRelative relative, Bool.false_or]
  by_cases empty : root = ""
  · left
    rw [if_pos (by simpa using empty)]
    exact ⟨empty, rfl⟩
  · right
    rw [if_neg (by simpa using empty)]
    split
    · rename_i closed
      obtain ⟨front, chars⟩ := List.getLast?_eq_some_iff.mp (beq_iff_eq.mp closed)
      have cut : root = String.ofList front ++ "/" := by
        apply String.toList_inj.mp
        rw [chars, String.toList_append, String.toList_ofList, slash]
      exact Or.inl ⟨String.ofList front, cut, by rw [← cut]⟩
    · exact Or.inr ⟨empty, rfl⟩

/-- The segments of a path below a root end with those of the path. -/
theorem suffix_splitText_joinPath (root : String) {path : String}
    (relative : isModuleRelative path = true) :
    splitText '/' path <:+ splitText '/' (joinPath root path) := by
  have slash : "/".toList = ['/'] := by decide
  rcases joinPath_cases root relative with ⟨-, joined⟩ | ⟨front, -, joined⟩ | ⟨-, joined⟩
  · have same : splitText '/' (joinPath root path) = splitText '/' path := congrArg _ joined
    exact same ▸ List.suffix_refl _
  · rw [joined, splitText_append slash]
    exact List.suffix_append _ _
  · rw [joined, splitText_append slash]
    exact List.suffix_append _ _

/-- **A module's file below a root stays below it.** Its path leads to the root's place followed by
the segments of the path, all of them plain. -/
theorem placeOf_joinPath (workspace : Workspace) (root : String) {path : String}
    (relative : isModuleRelative path = true) :
    workspace.placeOf (joinPath root path) = workspace.placeOf root ++ splitText '/' path := by
  have plain := plain_of_isModuleRelative relative
  have slash : "/".toList = ['/'] := by decide
  rcases joinPath_cases root relative with ⟨rfl, joined⟩ | ⟨front, rfl, joined⟩ | ⟨filled, joined⟩
  · -- Without a root, the path starts in the working directory.
    have top : workspace.placeOf "" = workspace.directory := rfl
    rw [joined, top]
    unfold placeOf start
    rw [head_of_isModuleRelative relative, if_neg Bool.false_ne_true,
      TreePath.foldl_follow_plain plain]
  · rw [joined]
    by_cases top : front = ""
    · -- The root is the top of the tree.
      have start : workspace.start ("" ++ "/" ++ path) = [] := by
        unfold Workspace.start
        rw [String.toList_append, String.toList_append, slash]
        rfl
      have root : workspace.placeOf ("" ++ "/") = [] := rfl
      rw [top, root]
      unfold placeOf
      rw [start, splitText_append slash, List.foldl_append]
      exact TreePath.foldl_follow_plain plain []
    · rw [placeOf_append_slash workspace top plain, placeOf_slash workspace top]
  · rw [joined]
    exact placeOf_append_slash workspace filled plain

end Workspace

end GoRefactor
