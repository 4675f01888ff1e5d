import GoRefactor.Proofs.Snapshot.Syntax
import GoRefactor.Snapshot.Module

/-!
# Modules read back

A module that is written to JSON is read back as it was, if the declarations of its files keep to
marks that fit into words.
-/

namespace GoRefactor.Snapshot

open Json

variable {marks : Marks}

/-- A map is read back if its values are. -/
theorem map?_encodeMap {α : Type} {encode : α → Json} {decode : Json → Option α} {map : NameMap α}
    (each : ∀ value ∈ map.values, decode (encode value) = some value) :
    map? decode (encodeMap encode map) = some map := by
  have entries (entries : List (String × α))
      (each : ∀ entry ∈ entries, decode (encode entry.2) = some entry.2) :
      ((entries.map fun entry => (entry.1, encode entry.2)).mapM fun entry =>
        (decode entry.2).map fun value => (entry.1, value)) = some entries := by
    induction entries with
    | nil => rfl
    | cons head rest ih =>
      rw [List.map_cons, List.mapM_cons, each head List.mem_cons_self,
        ih fun entry member => each entry (List.mem_cons_of_mem _ member)]
      rfl
  have read := entries map.entries fun entry member => each entry.2 (List.mem_map_of_mem member)
  change (List.mapM _ _ >>= fun entries => pure (NameMap.ofList entries)) = some map
  rw [read]
  exact congrArg some (NameMap.ext (NameMap.entries_ofList map.ordered))

/-! ## Declarations -/

/-- An import is read back. -/
theorem import?_encodeImport (words : marks.Words) {decl : Import}
    (passed : marks.guard.importDecl decl = .ok decl)
    (pairs : decl.pairs = true) : import? (encodeImport decl) = some decl := by
  obtain ⟨_, spanned, passed⟩ := bind_eq_ok.mp passed
  obtain ⟨_, named, -⟩ := bind_eq_ok.mp passed
  have path := span?_encodeSpan words spanned
  have place := optionalName_read words (eq_of_beq pairs) named
  simp -implicitDefEqProofs [import?, encodeImport, record?_object, Record.required?,
    Record.withDefault?, path, place]

/-- A field is read back. -/
theorem field?_encodeField (words : marks.Words) {decl : Field}
    (passed : marks.guard.field decl = .ok decl) (pairs : decl.typeNode.pairs = true) :
    field? (encodeField decl) = some decl := by
  obtain ⟨name, nameSpan, typeSpan, typeNode, embedded, doc⟩ := decl
  obtain ⟨_, named, passed⟩ := bind_eq_ok.mp passed
  obtain ⟨_, spanned, passed⟩ := bind_eq_ok.mp passed
  obtain ⟨_, visited, passed⟩ := bind_eq_ok.mp passed
  cases passed
  obtain ⟨-, place⟩ := named_read words named
  have span := span?_encodeSpan words spanned
  have type := heldNode?_encodeNode words visited pairs
  simp -implicitDefEqProofs [field?, encodeField, record?_object, Record.required?,
    Record.withDefault?, place, span, type]

/-- A method of an interface is read back. -/
theorem interfaceMethod?_encodeInterfaceMethod (words : marks.Words) {decl : InterfaceMethod}
    (passed : marks.guard.interfaceMethod decl = .ok decl) (pairs : decl.pairs = true) :
    interfaceMethod? (encodeInterfaceMethod decl) = some decl := by
  obtain ⟨name, nameSpan, signatureSpan, params, results⟩ := decl
  obtain ⟨_, named, passed⟩ := bind_eq_ok.mp passed
  obtain ⟨_, spanned, passed⟩ := bind_eq_ok.mp passed
  obtain ⟨_, visited, passed⟩ := bind_eq_ok.mp passed
  obtain ⟨_, visited', passed⟩ := bind_eq_ok.mp passed
  cases passed
  obtain ⟨pairs, pairs'⟩ := Bool.and_eq_true_iff.mp pairs
  obtain ⟨-, place⟩ := named_read words named
  have span := span?_encodeSpan words spanned
  have read : ∀ node, marks.guard.node node = .ok node → node.pairs = true →
      heldNode? (encodeNode node) = some node := fun _ => heldNode?_encodeNode words
  have params : list? heldParam? (.array (encodeParams params)) = some params :=
    list?_paramWith? words read visited pairs
  have results : list? heldParam? (.array (encodeParams results)) = some results :=
    list?_paramWith? words read visited' pairs'
  simp -implicitDefEqProofs [interfaceMethod?, encodeInterfaceMethod, record?_object,
    Record.required?, Record.withDefault?, place, span, params, results]

/-- The members of a list that is visited to itself are visited to themselves. -/
theorem visited_member {α : Type} {visit : α → Except Fault α} {values : List α}
    (passed : values.mapM visit = .ok values) {value : α} (member : value ∈ values) :
    visit value = .ok value :=
  List.forall₂_same.mp (mapM_eq_ok_iff.mp passed) value member

/-- The shape of a type is readable. -/
theorem isReadable_encodeShape (shape : TypeShape) : (encodeShape shape).isReadable = true := by
  cases shape with
  | struct fields =>
    have each : areReadable (fields.map encodeField) = true := areReadable_map fun field _ => by
      have doc : (nullable .string field.doc).isReadable = true :=
        isReadable_nullable (fun _ => rfl) field.doc
      simp [encodeField, isReadable, haveReadable, isReadable_encodeSpan,
        isReadable_encodeNode, doc]
    simp [encodeShape, isReadable, haveReadable, each]
  | interface methods embeds =>
    have each : areReadable (methods.map encodeInterfaceMethod) = true :=
      areReadable_map fun method _ => by
        simp [encodeInterfaceMethod, isReadable, haveReadable, isReadable_encodeSpan,
          areReadable_encodeParams]
    simp [encodeShape, isReadable, haveReadable, each, areReadable_encodeNodes]
  | other underlying => simp [encodeShape, isReadable, haveReadable, isReadable_encodeNode]

/-- The shape of a type is read back. -/
theorem shape?_encodeShape (words : marks.Words) {shape : TypeShape}
    (passed : marks.guard.typeShape shape = .ok shape) (pairs : shape.pairs = true) :
    shape? (encodeShape shape) = some shape := by
  rw [shape?, whole?, if_pos (isReadable_encodeShape shape)]
  cases shape with
  | struct fields =>
    obtain ⟨_, visited, passed⟩ := bind_eq_ok.mp passed
    cases passed
    have typed := Node.pairsAll_eq_true_iff.mp pairs
    have fields : list? field? (.array (fields.map encodeField)) = some fields :=
      list?_array fun field member => field?_encodeField words (visited_member visited member)
        (typed _ (List.mem_map_of_mem member))
    refine (tagged?_bind (by decide) (by simp) _).trans ?_
    simp -implicitDefEqProofs [record?_object, Record.required?, fields]
  | interface methods embeds =>
    obtain ⟨_, visited, passed⟩ := bind_eq_ok.mp passed
    obtain ⟨_, visited', passed⟩ := bind_eq_ok.mp passed
    cases passed
    obtain ⟨pairs, pairs'⟩ := Bool.and_eq_true_iff.mp pairs
    have methods : list? interfaceMethod? (.array (methods.map encodeInterfaceMethod)) =
        some methods :=
      list?_array fun method member => interfaceMethod?_encodeInterfaceMethod words
        (visited_member visited member) (List.all_eq_true.mp pairs method member)
    have embeds := list?_heldNode? words visited' pairs'
    refine (tagged?_bind (by decide) (by simp) _).trans ?_
    simp -implicitDefEqProofs [record?_object, Record.required?, Record.withDefault?, methods,
      embeds]
  | other underlying =>
    obtain ⟨_, visited, passed⟩ := bind_eq_ok.mp passed
    cases passed
    have underlying := heldNode?_encodeNode words visited pairs
    refine (tagged?_bind (by decide) (by simp) _).trans ?_
    simp -implicitDefEqProofs [record?_object, Record.required?, underlying]

/-- A declared type is read back. -/
theorem typeDecl?_encodeTypeDecl (words : marks.Words) {decl : TypeDecl}
    (passed : marks.guard.typeDecl decl = .ok decl) (pairs : decl.shape.pairs = true) :
    typeDecl? (encodeTypeDecl decl) = some decl := by
  obtain ⟨name, nameSpan, extent, shape, doc⟩ := decl
  obtain ⟨_, named, passed⟩ := bind_eq_ok.mp passed
  obtain ⟨_, spanned, passed⟩ := bind_eq_ok.mp passed
  obtain ⟨_, visited, passed⟩ := bind_eq_ok.mp passed
  cases passed
  obtain ⟨-, place⟩ := named_read words named
  have extent := span?_encodeSpan words spanned
  have shape := shape?_encodeShape words visited pairs
  simp -implicitDefEqProofs [typeDecl?, encodeTypeDecl, record?_object, Record.required?,
    Record.withDefault?, place, extent, shape]

/-- A parameter is not null. -/
theorem encodeParam_ne_null (param : Param) : encodeParam param ≠ .null := by
  cases param
  exact fun same => nomatch same

/-- A function or method is read back. -/
theorem funcDecl?_encodeFuncDecl (words : marks.Words) {decl : FuncDecl}
    (passed : marks.guard.funcDecl decl = .ok decl) (pairs : decl.pairs = true) :
    funcDecl? (encodeFuncDecl decl) = some decl := by
  obtain ⟨name, nameSpan, extent, receiver, params, results, signatureSpan, body, doc⟩ := decl
  obtain ⟨_, named, passed⟩ := bind_eq_ok.mp passed
  obtain ⟨_, spanned, passed⟩ := bind_eq_ok.mp passed
  obtain ⟨_, received, passed⟩ := bind_eq_ok.mp passed
  obtain ⟨_, visited, passed⟩ := bind_eq_ok.mp passed
  obtain ⟨_, visited', passed⟩ := bind_eq_ok.mp passed
  obtain ⟨_, spanned', passed⟩ := bind_eq_ok.mp passed
  obtain ⟨_, walked, passed⟩ := bind_eq_ok.mp passed
  cases passed
  obtain ⟨pairs, pairs₄⟩ := Bool.and_eq_true_iff.mp pairs
  obtain ⟨pairs, pairs₃⟩ := Bool.and_eq_true_iff.mp pairs
  obtain ⟨pairs₁, pairs₂⟩ := Bool.and_eq_true_iff.mp pairs
  obtain ⟨-, place⟩ := named_read words named
  have extent := span?_encodeSpan words spanned
  have signature := span?_encodeSpan words spanned'
  have read : ∀ node, marks.guard.node node = .ok node → node.pairs = true →
      node? (encodeNode node) = some node := fun _ => node?_encodeNode words
  have receiver : nullable? param? (nullable encodeParam receiver) = some receiver := by
    cases receiver with
    | none => rfl
    | some param =>
      obtain ⟨_, visited, same⟩ := map_eq_ok.mp received
      cases same
      refine nullable?_nullable encodeParam_ne_null fun _ given => ?_
      cases given
      exact paramWith?_encodeParam words visited pairs₁ fun typed together => read _ typed together
  have params : list? param? (.array (encodeParams params)) = some params :=
    list?_paramWith? words read visited pairs₂
  have results : list? param? (.array (encodeParams results)) = some results :=
    list?_paramWith? words read visited' pairs₃
  have body := nullable?_node? words walked pairs₄
  unfold funcDecl? encodeFuncDecl
  refine (record?_bind (by rfl) (by decide) _ _).trans ?_
  refine (Record.required?_bind rfl (text?_string _) _).trans ?_
  refine (Record.required?_bind rfl place _).trans ?_
  refine (Record.required?_bind rfl extent _).trans ?_
  refine (Record.withDefault?_bind rfl receiver _).trans ?_
  refine (Record.withDefault?_bind rfl params _).trans ?_
  refine (Record.withDefault?_bind rfl results _).trans ?_
  refine (Record.required?_bind rfl signature _).trans ?_
  refine (Record.withDefault?_bind rfl body _).trans ?_
  exact Record.withDefault?_bind rfl (nullable?_text _) _

/-- A variable or constant is read back. -/
theorem valueDecl?_encodeValueDecl (words : marks.Words) {decl : ValueDecl}
    (passed : marks.guard.valueDecl decl = .ok decl) (pairs : decl.pairs = true) :
    valueDecl? (encodeValueDecl decl) = some decl := by
  obtain ⟨name, nameSpan, extent, typeSpan, typeNode, value, doc⟩ := decl
  obtain ⟨_, named, passed⟩ := bind_eq_ok.mp passed
  obtain ⟨_, spanned, passed⟩ := bind_eq_ok.mp passed
  obtain ⟨_, typed, passed⟩ := bind_eq_ok.mp passed
  obtain ⟨_, visited, passed⟩ := bind_eq_ok.mp passed
  obtain ⟨_, visited', passed⟩ := bind_eq_ok.mp passed
  cases passed
  obtain ⟨pairs, pairs'⟩ := Bool.and_eq_true_iff.mp pairs
  obtain ⟨-, place⟩ := named_read words named
  have extent := span?_encodeSpan words spanned
  have span : nullable? span? (nullable encodeSpan typeSpan) = some typeSpan := by
    cases typeSpan with
    | none => rfl
    | some span =>
      obtain ⟨_, spanned, same⟩ := map_eq_ok.mp typed
      refine nullable?_nullable (fun _ same => nomatch same) fun _ given => ?_
      cases given
      exact span?_encodeSpan words spanned
  have type := nullable?_node? words visited pairs
  have value := nullable?_node? words visited' pairs'
  simp -implicitDefEqProofs [valueDecl?, encodeValueDecl, record?_object, Record.required?,
    Record.withDefault?, place, extent, span, type, value]

/-! ## Files, packages and modules -/

/-- A file is read back. -/
theorem file?_encodeFile (words : marks.Words) {file : SourceFile}
    (fixed : file.FixedBy marks.guard)
    (paired : file.Paired) : file? (encodeFile file) = some file := by
  obtain ⟨imported, typed, called, valued⟩ := SourceFile.paired_iff.mp paired
  obtain ⟨-, package⟩ := named_read words fixed.package
  have imports : list? import? (.array (file.imports.map encodeImport)) = some file.imports := by
    refine list?_array fun decl member => ?_
    exact import?_encodeImport words (fixed.imports decl member) (imported decl member)
  have types : map? typeDecl? (encodeMap encodeTypeDecl file.types) = some file.types :=
    map?_encodeMap fun decl member =>
      typeDecl?_encodeTypeDecl words (fixed.typeDecl member) (typed decl member)
  have funcs (decl : FuncDecl) (member : decl ∈ file.functions.values ++ file.methods) :
      funcDecl? (encodeFuncDecl decl) = some decl :=
    funcDecl?_encodeFuncDecl words (fixed.funcDecl member) (called decl member)
  have functions : map? funcDecl? (encodeMap encodeFuncDecl file.functions) = some file.functions :=
    map?_encodeMap fun decl member => funcs decl (List.mem_append_left _ member)
  have methods : list? funcDecl? (.array (file.methods.map encodeFuncDecl)) = some file.methods :=
    list?_array fun decl member => funcs decl (List.mem_append_right _ member)
  have values (decl : ValueDecl)
      (member : decl ∈ file.vars.values ++ file.consts.values ++ file.blanks) :
      valueDecl? (encodeValueDecl decl) = some decl :=
    valueDecl?_encodeValueDecl words (fixed.valueDecl member) (valued decl member)
  have vars : map? valueDecl? (encodeMap encodeValueDecl file.vars) = some file.vars :=
    map?_encodeMap fun decl member =>
      values decl (List.mem_append_left _ (List.mem_append_left _ member))
  have consts : map? valueDecl? (encodeMap encodeValueDecl file.consts) = some file.consts :=
    map?_encodeMap fun decl member =>
      values decl (List.mem_append_left _ (List.mem_append_right _ member))
  have blanks : list? valueDecl? (.array (file.blanks.map encodeValueDecl)) = some file.blanks :=
    list?_array fun decl member => values decl (List.mem_append_right _ member)
  unfold file? encodeFile
  refine (record?_bind (by rfl) (by decide) _ _).trans ?_
  refine (Record.required?_bind rfl (text?_string file.path) _).trans ?_
  refine (Record.required?_bind rfl (text?_string file.content) _).trans ?_
  refine (Record.withDefault?_bind rfl (bool?_bool file.isTest) _).trans ?_
  refine (Record.required?_bind rfl (text?_string file.packageName) _).trans ?_
  refine (Record.required?_bind rfl package _).trans ?_
  refine (Record.withDefault?_bind rfl imports _).trans ?_
  refine (Record.withDefault?_bind rfl types _).trans ?_
  refine (Record.withDefault?_bind rfl functions _).trans ?_
  refine (Record.withDefault?_bind rfl methods _).trans ?_
  refine (Record.withDefault?_bind rfl vars _).trans ?_
  refine (Record.withDefault?_bind rfl consts _).trans ?_
  refine (Record.withDefault?_bind rfl blanks _).trans ?_
  exact Record.withDefault?_bind rfl (bool?_bool file.modified) _

/-- A package is read back if its files are. -/
theorem package?_encodePackage {package : Package}
    (each : ∀ file ∈ package.files, file? (encodeFile file) = some file) :
    package? (encodePackage package) = some package := by
  have files : list? file? (.array (package.files.map encodeFile)) = some package.files :=
    list?_array each
  simp -implicitDefEqProofs [package?, encodePackage, record?_object, Record.required?,
    Record.withDefault?, files]

/-- **A module is read back if its files are**, as long as its revision fits into a word. -/
theorem module?_encodeModule {module : Module} (revision : module.revision < UInt64.size)
    (each : ∀ package ∈ module.packageList, ∀ file ∈ package.files,
      file? (encodeFile file) = some file) :
    module? (encodeModule module) = some module := by
  have packages : map? package? (encodeMap encodePackage module.packages) = some module.packages :=
    map?_encodeMap fun package member => package?_encodePackage (each package member)
  have word := word?_nat revision
  simp -implicitDefEqProofs [module?, encodeModule, record?_object, Record.required?,
    Record.withDefault?, packages, word]

end GoRefactor.Snapshot
