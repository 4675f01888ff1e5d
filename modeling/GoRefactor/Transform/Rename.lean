import GoRefactor.Edit.Apply
import GoRefactor.Symbol.Index
import GoRefactor.Transform.Outcome

/-!
# Renaming

A rename replaces a declared name and every use that stands for it. The new name must be a valid
identifier that no sibling of a renamed declaration has. Uses that could stand for several
declarations are left alone and reported.
-/

namespace GoRefactor

/-- What to rename. -/
structure RenameOptions where
  /-- The current name. -/
  old : String
  /-- The name to put in its place. -/
  new : String
  /-- Rename only members of this type, or parameters of this function. -/
  parentType : Option String := none
  /-- Rename only in this package, given by import path or name. -/
  package : Option String := none
  /-- Only say what would change. -/
  dryRun : Bool := false
deriving DecidableEq, Repr, Inhabited

/-- What a rename would do. -/
structure RenamePlan where
  /-- Qualified names of the renamed declarations. -/
  targets : List String
  /-- The edits, by file and span. -/
  edits : List Edit
  /-- The same as changes. -/
  changes : List Change
  /-- Uses left alone. -/
  warnings : List String
deriving Inhabited

/-- Import path of a package given by path or name. -/
def Module.packagePath (module : Module) (pathOrName : String) : Attempt String :=
  match module.findPackage? pathOrName with
  | some package => pure package.path
  | none => Attempt.refuse (.packageNotFound pathOrName)

namespace RenameOptions

/-- Where the name was looked for, in words. -/
def scopeText (options : RenameOptions) : Option String :=
  match options.parentType, options.package with
  | some parent, some package => some s!"{package}.{parent}"
  | some parent, none => some parent
  | none, package => package

/-- The symbol belongs to the type or function that the options name. -/
def ownedBy (options : RenameOptions) (symbol : Symbol) : Bool :=
  match options.parentType with
  | some parent => symbol.parentType == some parent || symbol.container == some parent
  | none => true

/-- The declarations to rename. -/
def locate (options : RenameOptions) (module : Module) (index : Index) :
    Attempt (List Symbol) := do
  let path ← options.package.mapM module.packagePath
  let targets := (index.symbols.named options.old).filter fun symbol =>
    symbol.kind.isRenamable && options.ownedBy symbol &&
      (path.all fun path => path == symbol.package)
  if targets.isEmpty then
    Attempt.refuse (.symbolNotFound options.old options.scopeText)
  else
    return targets

/-- What already has a name next to a declaration, in words. -/
def siblingNamed (module : Module) (index : Index) (target : Symbol) (name : String) :
    Option String :=
  let describe (symbol : Symbol) : String := s!"{symbol.kind.name} {symbol.qualifiedName}"
  match target.kind with
  | .field | .method =>
    ((index.symbols.membersOf (target.parentType.getD "")).find? fun symbol =>
      symbol.package == target.package && symbol.name == name).map describe
  | .parameter =>
    ((index.symbols.named name).find? fun symbol =>
      symbol.kind == .parameter && symbol.package == target.package &&
        symbol.container == target.container).map describe
  | _ =>
    if ((module.package? target.package).map fun package => package.declares name).getD false then
      match (index.symbols.named name).find? fun symbol =>
          symbol.package == target.package && !symbol.kind.isMember with
      | some symbol => some (describe symbol)
      | none => some s!"declaration in {target.package}"
    else none

/-- Refuse a new name that a sibling of a target has. -/
def checkSiblings (options : RenameOptions) (module : Module) (index : Index)
    (targets : List Symbol) : Attempt Unit :=
  match targets.findSome? fun target => siblingNamed module index target options.new with
  | some existing => Attempt.refuse (.nameConflict options.new existing)
  | none => pure ()

/-- Files and spans of the declarations and of the uses that stand for them, in order and each
once. -/
def spans (index : Index) (targets : List Symbol) : List (String × Span) :=
  let found := targets.flatMap fun target =>
    (target.file, target.nameSpan) ::
      (index.references.toSymbol target.id).map fun reference => (reference.file, reference.span)
  let inOrder (left right : String × Span) : Bool :=
    left.1 < right.1 || (left.1 == right.1 && left.2.le right.2)
  dropRepeats (sortBy inOrder found)

/-- Spans by file; neighbours in one file stand together. -/
def spansByFile : List (String × Span) → List (String × List Span)
  | [] => []
  | (path, span) :: rest =>
    match spansByFile rest with
    | [] => [(path, [span])]
    | (other, spans) :: files =>
      if path == other then (path, span :: spans) :: files
      else (path, [span]) :: (other, spans) :: files

/-- The edits of spans of one file, and their changes. -/
def editsIn (options : RenameOptions) (module : Module) (path : String) (spans : List Span) :
    Attempt (List (Edit × Change)) :=
  match module.file? path with
  | none => Attempt.refuse (.fileNotFound path)
  | some file =>
    let lines := LineIndex.ofText file.content
    spans.mapM fun span =>
      match Edit.replace? path file.content span options.new with
      | none => Attempt.refuse (.invalidModel (.badSpan path span))
      | some edit => pure (edit, Change.ofEditIn lines edit)

/-- What is said of a use left alone. -/
def warning (diagnostic : Diagnostic) : String :=
  s!"{diagnostic.file}:{diagnostic.position.line}:{diagnostic.position.column}: " ++
    s!"ambiguous use of `{diagnostic.name}` left unchanged"

/-- Plan the rename, changing nothing. -/
def plan (options : RenameOptions) (module : Module) : Attempt RenamePlan := do
  match nameFlaw? options.new with
  | some flaw => Attempt.refuse (.invalidIdentifier options.new flaw)
  | none =>
    if options.old == options.new then
      Attempt.refuse (.invalidIdentifier options.new .unchanged)
    else
      let index ← module.index .full
      let targets ← options.locate module index
      options.checkSiblings module index targets
      let found ← (spansByFile (spans index targets)).mapM fun (path, spans) =>
        options.editsIn module path spans
      return {
        targets := targets.map (·.qualifiedName)
        edits := found.flatten.map Prod.fst
        changes := found.flatten.map Prod.snd
        warnings := (index.diagnostics.filter fun diagnostic =>
          diagnostic.name == options.old).map warning }

/-- What happened, in words. -/
def summary (options : RenameOptions) (plan : RenamePlan) : String :=
  let verb := if options.dryRun then "Would rename" else "Renamed"
  s!"{verb} `{options.old}` to `{options.new}`: {plan.changes.length} change(s) across " ++
    s!"{plan.targets.length} declaration(s)"

/-- Plan and, unless it is a dry run, apply. -/
def attempt (options : RenameOptions) (module : Module) : Attempt (Module × Outcome) := do
  let plan ← options.plan module
  let outcome := Outcome.succeeded (options.summary plan) plan.changes plan.warnings
  if options.dryRun then
    return (module, outcome)
  else
    let (edited, _) ← module.applyEdits plan.edits
    return (edited, outcome)

/-- Carry the rename out. A refused rename leaves the module as it is. -/
def run (options : RenameOptions) (module : Module) : Except Fault (Module × Outcome) := do
  match ← (options.attempt module).run with
  | .ok result => return result
  | .error error => return (module, .failed error)

end RenameOptions

end GoRefactor
