import GoRefactor.Go.Declaration
import GoRefactor.NameMap

/-!
# Source files

A file's text with the declarations scanned from it. Functions, types, variables and constants
are kept by name, so that of two declarations with one name the later counts; methods keep the
order of the text, because several types may share a method name.
-/

namespace GoRefactor

/-- A source file. -/
structure SourceFile where
  /-- Path from the module's root. -/
  path : String
  /-- The text. -/
  content : String
  /-- The file holds tests. -/
  isTest : Bool
  /-- Name in the package clause. -/
  packageName : String
  /-- Where that name stands. -/
  packageSpan : Span
  /-- Imports in order. -/
  imports : List Import
  /-- Types by name. -/
  types : NameMap TypeDecl
  /-- Functions by name. -/
  functions : NameMap FuncDecl
  /-- Methods in order. -/
  methods : List FuncDecl
  /-- Variables by name. -/
  vars : NameMap ValueDecl
  /-- Constants by name. -/
  consts : NameMap ValueDecl
  /-- Declarations of the blank identifier, kept for the names they use. -/
  blanks : List ValueDecl
  /-- The text changed since the file was loaded. -/
  modified : Bool

/-- End of the path of a file that holds tests. -/
def testSuffix : String := "_test.go"

/-- The text ends with another one. -/
def endsWith (text ending : String) : Bool := ending.toList.isSuffixOf text.toList

/-- The text starts with another one. -/
def startsWith (text beginning : String) : Bool := beginning.toList.isPrefixOf text.toList

namespace SourceFile

/-- A file without declarations. -/
def blank (path content : String) : SourceFile where
  path := path
  content := content
  isTest := endsWith path testSuffix
  packageName := ""
  packageSpan := ⟨0, 0⟩
  imports := []
  types := ∅
  functions := ∅
  methods := []
  vars := ∅
  consts := ∅
  blanks := []
  modified := false

/-- The default file is the empty one. -/
instance : Inhabited SourceFile := ⟨blank "" ""⟩

/-- The text that a span covers, empty if the span is no valid cut. -/
def text (file : SourceFile) (span : Span) : String := (span.slice? file.content).getD ""

/-- The file declares the name at top level, methods apart. -/
def declares (file : SourceFile) (name : String) : Bool :=
  file.types.contains name || file.functions.contains name || file.vars.contains name ||
    file.consts.contains name

/-- Methods on a type. -/
def methodsOf (file : SourceFile) (typeName : String) : List FuncDecl :=
  file.methods.filter fun decl => decl.receiverTypeName == some typeName

/-- Put every declaration under the name it now carries. -/
def rekey (file : SourceFile) : SourceFile :=
  { file with
    types := file.types.rekey (·.name)
    functions := file.functions.rekey (·.name)
    vars := file.vars.rekey (·.name)
    consts := file.consts.rekey (·.name) }

/-- The import that binds a name. -/
def importNamed (file : SourceFile) (localName : String) : Option Import :=
  file.imports.find? fun decl => decl.localName == localName

end SourceFile

end GoRefactor
