import GoRefactor.Proofs.Edit.LaidOut
import GoRefactor.Proofs.Symbol.Inventory
import GoRefactor.Proofs.Transform.Discovery

/-!
# Discovering again

What a discovery finds depends on the structs of a module, in the order of a build, and on the
methods that belong to each. Interfaces that are declared under names that their packages lack, at
the end of files or in new ones, are no structs and belong to none. So with them the same is found
again.
-/

namespace GoRefactor

/-- Structs that tell the same in two indexes, methods included, are filed alike. -/
theorem foldl_addImplementer_congr {index index' : Index} {excludes : Excludes}
    {structs structs' : List Symbol}
    (alike : List.Forall₂ (fun left right => left.implementer = right.implementer ∧
      methodSet index excludes left = methodSet index' excludes right) structs structs')
    (patterns : NameMap MethodPattern) :
    structs.foldl (addImplementer index excludes) patterns =
      structs'.foldl (addImplementer index' excludes) patterns := by
  induction alike generalizing patterns with
  | nil => rfl
  | @cons left right _ _ one _ ih =>
    obtain ⟨same, methods⟩ := one
    have filed : addImplementer index excludes patterns left =
        addImplementer index' excludes patterns right := by
      injection same with name package file
      unfold addImplementer
      rw [name, package, file, methods]
    rw [List.foldl_cons, List.foldl_cons, filed, ih]

namespace SourceFile

/-- The structs of a file, in the order of a build. -/
def structs (file : SourceFile) : List TypeDecl :=
  (inTextOrder (·.nameSpan.start) file.types.values).filter fun decl =>
    Draft.kindOfType decl == .struct

/-- What is made of values and is never a struct has no structs. -/
theorem filter_struct_map {α : Type} (make : α → Item)
    (never : ∀ value, (make value).kind ≠ .struct)
    (values : List α) : (values.map make).filter (fun item => item.kind == .struct) = [] := by
  rw [List.filter_eq_nil_iff]
  intro item member
  obtain ⟨value, -, rfl⟩ := List.mem_map.mp member
  simpa using never value

/-- Functions and their parameters are no structs. -/
theorem filter_struct_functions (functions : List FuncDecl) :
    (functions.flatMap FuncDecl.items).filter (fun item => item.kind == .struct) = [] := by
  rw [List.filter_flatMap, List.flatMap_eq_nil_iff]
  intro decl _
  have own : (Item.function decl).kind ≠ .struct := by
    rw [Item.kind]
    split <;> decide
  rw [FuncDecl.items, List.filter_cons_of_neg (by simpa using own),
    filter_struct_map (.param decl) (fun _ => by simp [Item.kind])]

/-- Of a type with its members and methods, the type alone may be a struct. -/
theorem filter_struct_type (file : SourceFile) (decl : TypeDecl) :
    (decl.items file).filter (fun item => item.kind == .struct) =
      if Draft.kindOfType decl == .struct then [.type decl] else [] := by
  unfold TypeDecl.items
  rw [List.filter_append, List.filter_append, List.filter_cons, filter_struct_functions,
    filter_struct_map (.field decl) (fun _ => by simp [Item.kind]),
    filter_struct_map (.interfaceMethod decl) (fun _ => by simp [Item.kind])]
  simp [Item.kind]

/-- Of what a build lists, the structs are those of the file. -/
theorem filter_struct_listing (file : SourceFile) :
    file.listing.filter (fun item => item.kind == .struct) = file.structs.map .type := by
  have types (decls : List TypeDecl) :
      (decls.flatMap (TypeDecl.items file)).filter (fun item => item.kind == .struct) =
        (decls.filter fun decl => Draft.kindOfType decl == .struct).map .type := by
    induction decls with
    | nil => rfl
    | cons decl rest ih =>
      rw [List.flatMap_cons, List.filter_append, ih, filter_struct_type, List.filter_cons]
      split <;> rfl
  unfold listing structs
  simp only [List.filter_append, filter_struct_functions, types, List.append_nil]
  rw [filter_struct_map .importing (fun _ => by simp [Item.kind]),
    filter_struct_map .var (fun _ => by simp [Item.kind]),
    filter_struct_map .const (fun _ => by simp [Item.kind])]
  simp

/-- Whatever is a struct in one file is a struct in the other: then the structs are the same. -/
theorem structs_eq {file image : SourceFile}
    (same : ∀ name decl, Draft.kindOfType decl = .struct →
      (image.types.get? name = some decl ↔ file.types.get? name = some decl)) :
    image.structs = file.structs := by
  have commutes (values : List TypeDecl) (keep : TypeDecl → Bool) :
      (inTextOrder (·.nameSpan.start) values).filter keep =
        inTextOrder (·.nameSpan.start) (values.filter keep) := by
    refine filter_sortBy (fun left right => ?_) (fun first second third low high => ?_) keep values
    · simpa using Nat.le_total _ _
    · simp only [decide_eq_true_eq] at low high ⊢
      exact low.trans high
  unfold structs
  rw [commutes, commutes, NameMap.filter_values_eq fun name decl struct =>
    same name decl (eq_of_beq struct)]

/-- The file has a method that the options retain, for a type or asked for by one. -/
def HasMethod (file : SourceFile) (options : IndexOptions) (typeName : String)
    (shape : MethodShape) : Prop :=
  ∃ item ∈ file.items, options.retainsItem item = true ∧ item.kind = .method ∧
    item.parentType = some typeName ∧ item.name? = some shape.name ∧
    normalizeText ((item.typeText? file).getD "") = shape.signature

/-- The methods of types: those that are declared, and those that interfaces ask for. -/
theorem method_of_items {file : SourceFile} {item : Item} (declared : item ∈ file.items)
    (method : item.kind = .method) :
    (∃ decl ∈ file.allFunctions, item = .function decl) ∨
      ∃ decl ∈ file.types.values, ∃ asked ∈ decl.interfaceMethods,
        item = .interfaceMethod decl asked := by
  unfold items at declared
  simp only [List.mem_append, List.mem_map, List.mem_flatMap] at declared
  rcases declared with ((((((⟨decl, -, rfl⟩ | ⟨decl, held, rfl⟩) | ⟨decl, -, field, -, rfl⟩) |
    ⟨decl, held, asked, among, rfl⟩) | ⟨decl, held, rfl⟩) | ⟨decl, -, param, -, rfl⟩) |
    ⟨decl, -, rfl⟩) | ⟨decl, -, rfl⟩
  case inl.inl.inl.inl.inl.inl.inr =>
    rw [Item.kind, Draft.kindOfType] at method
    split at method <;> cases method
  case inl.inl.inl.inl.inr => exact Or.inr ⟨decl, held, asked, among, rfl⟩
  case inl.inl.inl.inr => exact Or.inl ⟨decl, held, rfl⟩
  all_goals cases method

/-- Functions and methods are declared. -/
theorem mem_items_function {file : SourceFile} {decl : FuncDecl}
    (held : decl ∈ file.allFunctions) : Item.function decl ∈ file.items := by
  unfold items
  simp only [List.mem_append]
  exact Or.inl (Or.inl (Or.inl (Or.inr (List.mem_map_of_mem held))))

/-- What interfaces ask for is declared. -/
theorem mem_items_interfaceMethod {file : SourceFile} {decl : TypeDecl} {asked : InterfaceMethod}
    (held : decl ∈ file.types.values) (among : asked ∈ decl.interfaceMethods) :
    Item.interfaceMethod decl asked ∈ file.items := by
  unfold items
  simp only [List.mem_append]
  exact Or.inl (Or.inl (Or.inl (Or.inl (Or.inr
    (List.mem_flatMap.mpr ⟨decl, held, List.mem_map_of_mem among⟩)))))

/-- Further text leaves what a span covers. -/
theorem text_grown {file image : SourceFile} {more : String}
    (grows : image.content = file.content ++ more) {span : Span}
    (covers : ∃ text, span.slice? file.content = some text) : image.text span = file.text span := by
  obtain ⟨text, covers⟩ := covers
  obtain ⟨order, front, back, whole, first, last⟩ := Span.slice?_eq_some_iff.mp covers
  have still : span.slice? image.content = some text := by
    refine Span.slice?_eq_some_iff.mpr ⟨order, front, back ++ more, ?_, first, last⟩
    rw [grows, whole, String.append_assoc]
  rw [SourceFile.text, SourceFile.text, still, covers]

/-- Further text leaves the signatures of methods. -/
theorem typeText?_grown {file image : SourceFile} {lexemes : List Lexeme}
    (laid : file.LaidOut lexemes) {more : String} (grows : image.content = file.content ++ more)
    {item : Item} (declared : item ∈ file.items) (method : item.kind = .method) :
    item.typeText? image = item.typeText? file := by
  have cut {span image : Span} (passes : (Lexeme.marks True lexemes).guard.span span = .ok image) :
      ∃ text, span.slice? file.content = some text := by
    rw [laid.content]
    exact Lexeme.spans_cut (Marks.guard_span_iff.mp passes).1
  rcases method_of_items declared method with
    ⟨decl, held, rfl⟩ | ⟨decl, held, asked, among, rfl⟩
  · have visited := laid.fixed.funcDecl held
    obtain ⟨_, -, visited⟩ := bind_eq_ok.mp visited
    obtain ⟨_, -, visited⟩ := bind_eq_ok.mp visited
    obtain ⟨_, -, visited⟩ := bind_eq_ok.mp visited
    obtain ⟨_, -, visited⟩ := bind_eq_ok.mp visited
    obtain ⟨_, -, visited⟩ := bind_eq_ok.mp visited
    obtain ⟨_, passes, -⟩ := bind_eq_ok.mp visited
    exact congrArg some (text_grown grows (cut passes))
  · have visited := laid.fixed.typeDecl held
    obtain ⟨_, -, visited⟩ := bind_eq_ok.mp visited
    obtain ⟨_, -, visited⟩ := bind_eq_ok.mp visited
    obtain ⟨_, visited, -⟩ := bind_eq_ok.mp visited
    unfold TypeDecl.interfaceMethods at among
    split at among
    · rename_i methods embeds shape
      rw [shape] at visited
      obtain ⟨images, each, -⟩ := bind_eq_ok.mp visited
      obtain ⟨_, -, one⟩ := exists_mem_of_forall₂ (mapM_eq_ok_iff.mp each).flip among
      obtain ⟨_, -, one⟩ := bind_eq_ok.mp one
      obtain ⟨_, passes, -⟩ := bind_eq_ok.mp one
      exact congrArg some (text_grown grows (cut passes))
    · cases among

/-- A file with further text, and with further types that are interfaces under fresh names. -/
structure Enriched (fresh : String → Prop) (file image : SourceFile) : Prop where
  /-- Whatever is no type stays. -/
  rest : image = { file with
    content := image.content, types := image.types, modified := image.modified }
  /-- Text is added at the end. -/
  grows : ∃ more, image.content = file.content ++ more
  /-- Types stay under their names. -/
  kept : ∀ name decl, file.types.get? name = some decl → image.types.get? name = some decl
  /-- Other types are interfaces under fresh names. -/
  others : ∀ name decl, image.types.get? name = some decl →
    file.types.get? name = some decl ∨ fresh name ∧ Draft.kindOfType decl = .interface

/-- A file that declares interfaces under fresh names, and no methods. -/
structure Bare (fresh : String → Prop) (file : SourceFile) : Prop where
  /-- No function belongs to a type. -/
  functions : ∀ decl ∈ file.allFunctions, decl.receiverTypeName = none
  /-- Types are interfaces under fresh names. -/
  types : ∀ name decl, file.types.get? name = some decl →
    fresh name ∧ Draft.kindOfType decl = .interface

section Enriched

variable {fresh : String → Prop} {file image : SourceFile}

/-- The path stays. -/
theorem Enriched.path (enriched : file.Enriched fresh image) : image.path = file.path := by
  rw [enriched.rest]

/-- The same options retain it. -/
theorem Enriched.retainsFile (enriched : file.Enriched fresh image) (options : IndexOptions) :
    options.retainsFile image = options.retainsFile file := by
  rw [enriched.rest, IndexOptions.retainsFile, IndexOptions.retainsFile]

/-- A file that only gained interfaces has the functions and methods that it had. -/
theorem Enriched.allFunctions (enriched : file.Enriched fresh image) :
    image.allFunctions = file.allFunctions := by
  rw [enriched.rest, SourceFile.allFunctions, SourceFile.allFunctions]

/-- What is declared stays declared. -/
theorem Enriched.declares (enriched : file.Enriched fresh image) {name : String}
    (declares : file.declares name = true) : image.declares name = true := by
  have types : file.types.contains name = true → image.types.contains name = true := fun held => by
    obtain ⟨decl, found⟩ := NameMap.contains_iff_get?.mp held
    exact NameMap.contains_iff_get?.mpr ⟨decl, enriched.kept name decl found⟩
  rw [enriched.rest]
  simp only [SourceFile.declares, Bool.or_eq_true] at declares ⊢
  exact declares.imp_left fun either => either.imp_left fun either => either.imp_left types

/-- The structs of a file stay. -/
theorem Enriched.structs (enriched : file.Enriched fresh image) : image.structs = file.structs := by
  refine structs_eq fun name decl struct => ⟨fun found => ?_, enriched.kept name decl⟩
  rcases enriched.others name decl found with former | ⟨-, interface⟩
  · exact former
  · rw [struct] at interface
    cases interface

/-- A file of fresh interfaces alone declares no structs. -/
theorem Bare.structs (bare : file.Bare fresh) : file.structs = [] := by
  have none : file.types.values.filter (fun decl => Draft.kindOfType decl == .struct) = [] := by
    refine List.filter_eq_nil_iff.mpr fun decl member => ?_
    obtain ⟨⟨name, decl⟩, entry, rfl⟩ := List.mem_map.mp member
    rw [(bare.types name decl (NameMap.get?_eq_some_iff.mpr entry)).2]
    decide
  refine List.filter_eq_nil_iff.mpr fun decl member => ?_
  exact List.filter_eq_nil_iff.mp none decl ((mem_sortBy _ _ _).mp member)

/-- **The methods of a type whose name is not fresh stay.** -/
theorem Enriched.hasMethod_iff {lexemes : List Lexeme} (enriched : file.Enriched fresh image)
    (laid : file.LaidOut lexemes) (keyed : image.Keyed) {options : IndexOptions} {typeName : String}
    (stale : ¬fresh typeName) {shape : MethodShape} :
    image.HasMethod options typeName shape ↔ file.HasMethod options typeName shape := by
  obtain ⟨more, grows⟩ := enriched.grows
  have functions := enriched.allFunctions
  constructor
  · rintro ⟨item, declared, retained, method, parent, name, signature⟩
    have former : item ∈ file.items := by
      rcases method_of_items declared method with
        ⟨decl, held, rfl⟩ | ⟨decl, held, asked, among, rfl⟩
      · exact mem_items_function (functions ▸ held)
      · obtain ⟨⟨key, decl⟩, entry, rfl⟩ := List.mem_map.mp held
        have found := NameMap.get?_eq_some_iff.mpr entry
        have same : key = typeName := (keyed.types _ entry).trans (Option.some.inj parent)
        rcases enriched.others key decl found with still | ⟨new, -⟩
        · exact mem_items_interfaceMethod
            (NameMap.mem_values_of_get? still) among
        · exact absurd (same ▸ new) stale
    refine ⟨item, former, retained, method, parent, name, ?_⟩
    rw [← typeText?_grown laid grows former method]
    exact signature
  · rintro ⟨item, declared, retained, method, parent, name, signature⟩
    refine ⟨item, ?_, retained, method, parent, name, ?_⟩
    · rcases method_of_items declared method with
        ⟨decl, held, rfl⟩ | ⟨decl, held, asked, among, rfl⟩
      · exact mem_items_function (functions.symm ▸ held)
      · obtain ⟨⟨key, decl⟩, entry, rfl⟩ := List.mem_map.mp held
        exact mem_items_interfaceMethod (NameMap.mem_values_of_get?
          (enriched.kept key decl (NameMap.get?_eq_some_iff.mpr entry))) among
    · rw [typeText?_grown laid grows declared method]
      exact signature

/-- A file that is bare has no methods for types whose names are not fresh. -/
theorem Bare.not_hasMethod (bare : file.Bare fresh) (keyed : file.Keyed) {options : IndexOptions}
    {typeName : String} (stale : ¬fresh typeName) {shape : MethodShape} :
    ¬file.HasMethod options typeName shape := by
  rintro ⟨item, declared, -, method, parent, -⟩
  rcases method_of_items declared method with
    ⟨decl, held, rfl⟩ | ⟨decl, held, asked, -, rfl⟩
  · cases parent.symm.trans (bare.functions decl held)
  · obtain ⟨⟨key, decl⟩, entry, rfl⟩ := List.mem_map.mp held
    have same : key = typeName := (keyed.types _ entry).trans (Option.some.inj parent)
    exact stale (same ▸ (bare.types key decl (NameMap.get?_eq_some_iff.mpr entry)).1)

end Enriched

end SourceFile

/-- A package whose files are enriched, with bare files behind them. The names are ones that it
lacks. -/
structure Package.Enriched (package image : Package) : Prop where
  /-- The import path stays. -/
  path : image.path = package.path
  /-- The name stays. -/
  name : image.name = package.name
  /-- Its files stay in order, enriched, and bare ones come behind them. -/
  files : ∃ images added, image.files = images ++ added ∧
    List.Forall₂ (SourceFile.Enriched fun name => package.declares name = false)
      package.files images ∧
    ∀ file ∈ added, file.Bare fun name => package.declares name = false

/-- What the package declares, it declares enriched. -/
theorem Package.Enriched.declares {package image : Package} (enriched : package.Enriched image)
    {name : String} (declares : package.declares name = true) : image.declares name = true := by
  obtain ⟨file, held, declares⟩ := List.any_eq_true.mp declares
  obtain ⟨images, added, split, each, -⟩ := enriched.files
  obtain ⟨image, held', one⟩ := exists_mem_of_forall₂ each.flip held
  exact List.any_eq_true.mpr ⟨image, split ▸ List.mem_append_left _ held', one.declares declares⟩

/-- A module whose packages are enriched, each under its key. -/
def Module.Enriched (module image : Module) : Prop :=
  List.Forall₂ (fun entry grown => grown.1 = entry.1 ∧ entry.2.Enriched grown.2)
    module.packages.entries image.packages.entries

namespace Module.Enriched

variable {module image : Module}

/-- Packages are enriched one by one. -/
theorem packages (enriched : module.Enriched image) :
    List.Forall₂ Package.Enriched module.packageList image.packageList :=
  List.forall₂_map_left_iff.mpr
    (List.forall₂_map_right_iff.mpr (enriched.imp fun _ _ => And.right))

/-- The package under a key is enriched. -/
theorem package? (enriched : module.Enriched image) {key : String} {package : Package}
    (held : module.package? key = some package) :
    ∃ grown, image.package? key = some grown ∧ package.Enriched grown := by
  obtain ⟨⟨key', grown⟩, member, same, one⟩ :=
    exists_mem_of_forall₂ (List.Forall₂.flip enriched) (NameMap.get?_eq_some_iff.mp held)
  cases same
  exact ⟨grown, NameMap.get?_eq_some_iff.mpr member, one⟩

/-- No package comes under another key. -/
theorem package?_eq_none (enriched : module.Enriched image) {key : String}
    (absent : module.package? key = none) : image.package? key = none := by
  cases held : image.package? key with
  | none => rfl
  | some grown =>
    obtain ⟨⟨key', package⟩, member, same, -⟩ :=
      exists_mem_of_forall₂ enriched (NameMap.get?_eq_some_iff.mp held)
    cases same
    have found : module.package? key = some package := NameMap.get?_eq_some_iff.mpr member
    rw [absent] at found
    cases found

end Module.Enriched

/-! ## Structs -/

/-- The retained structs of a package, as far as patterns tell of them, in the order of a build. -/
def Package.implementers (package : Package) (options : IndexOptions) : List Implementer :=
  (package.files.filter options.retainsFile).flatMap fun file =>
    (file.structs.filter fun decl => options.retainsItem (.type decl)).map fun decl =>
      ⟨decl.name, package.path, file.path⟩

/-- What patterns tell of a declared struct. -/
def Declared.implementer (declared : Declared) : Implementer :=
  ⟨declared.item.name?.getD "", declared.package.path, declared.file.path⟩

/-- The structs among what a build lists of a package are its implementers. -/
theorem Package.map_implementer_listed (package : Package) (options : IndexOptions) :
    ((package.listed options).filter fun declared => declared.item.kind == .struct).map
      Declared.implementer = package.implementers options := by
  have clause (files : List SourceFile) : ((files.map fun file => (⟨package, file,
      .package file.packageName file.packageSpan⟩ : Declared)).filter fun declared =>
        declared.item.kind == .struct) = [] :=
    List.filter_eq_nil_iff.mpr fun declared member => by
      obtain ⟨file, -, rfl⟩ := List.mem_map.mp member
      exact Bool.false_ne_true
  have file (file : SourceFile) :
      (((file.listing.filter options.retainsItem).map fun item =>
        (⟨package, file, item⟩ : Declared)).filter fun declared =>
          declared.item.kind == .struct).map Declared.implementer =
      (file.structs.filter fun decl => options.retainsItem (.type decl)).map fun decl =>
        ⟨decl.name, package.path, file.path⟩ := by
    have structs : (file.listing.filter options.retainsItem).filter
          (fun item => item.kind == .struct) =
        (file.structs.filter fun decl => options.retainsItem (.type decl)).map .type := by
      rw [List.filter_filter, List.filter_congr (fun _ _ => Bool.and_comm _ _),
        ← List.filter_filter, SourceFile.filter_struct_listing, List.filter_map]
      rfl
    rw [List.filter_map, List.map_map]
    change ((file.listing.filter options.retainsItem).filter
      fun item => item.kind == .struct).map _ = _
    rw [structs, List.map_map]
    rfl
  unfold listed implementers
  rw [List.filter_append, clause, List.nil_append, List.filter_flatMap, List.map_flatMap]
  exact List.flatMap_congr fun member _ => file member

/-- **The structs among the symbols are those of the packages, in order.** -/
theorem Module.map_implementer_symbols {module : Module} {options : IndexOptions}
    {table : SymbolTable} (drawn : (module.symbols options).run = .ok (.ok table)) :
    (table.toList.filter fun symbol => symbol.kind == .struct).map Symbol.implementer =
      module.packageList.flatMap fun package => package.implementers options := by
  have depicts := depicts_of_symbols drawn
  have structs := List.rel_filter (R := Symbol.Depicts)
    (p := fun symbol : Symbol => symbol.kind == .struct)
    (q := fun declared : Declared => declared.item.kind == .struct)
    (fun symbol declared one => by simp only [one.kind]) depicts
  have same := map_eq_map_of_forall₂ Declared.implementer Symbol.implementer
    (fun declared symbol one => by
      rw [Symbol.implementer, Declared.implementer, one.name, one.package, one.file]
      rfl) structs.flip
  rw [same, Module.listed, List.filter_flatMap, List.map_flatMap]
  exact List.flatMap_congr fun package _ => package.map_implementer_listed options

/-- Enriched files have the same retained structs. -/
theorem Package.Enriched.implementers {package image : Package} (enriched : package.Enriched image)
    (options : IndexOptions) : image.implementers options = package.implementers options := by
  obtain ⟨images, added, split, each, bare⟩ := enriched.files
  let structs (file : SourceFile) : List Implementer :=
    (file.structs.filter fun decl => options.retainsItem (.type decl)).map fun decl =>
      ⟨decl.name, package.path, file.path⟩
  have former (files images : List SourceFile)
      (each : List.Forall₂ (SourceFile.Enriched fun name => package.declares name = false)
        files images) : (images.filter options.retainsFile).flatMap structs =
          (files.filter options.retainsFile).flatMap structs := by
    induction each with
    | nil => rfl
    | @cons file image _ _ one _ ih =>
      rw [List.filter_cons, List.filter_cons, one.retainsFile options]
      split
      · have same : structs image = structs file := by
          simp only [structs, one.structs, one.path]
        rw [List.flatMap_cons, List.flatMap_cons, same, ih]
      · exact ih
  have none : (added.filter options.retainsFile).flatMap structs = [] := by
    refine List.flatMap_eq_nil_iff.mpr fun file member => ?_
    simp only [structs, (bare file (List.mem_filter.mp member).1).structs]
    rfl
  unfold Package.implementers
  rw [enriched.path, split, List.filter_append, List.flatMap_append]
  change (images.filter options.retainsFile).flatMap structs ++
    (added.filter options.retainsFile).flatMap structs = _
  rw [former _ _ each, none, List.append_nil]

/-! ## Methods -/

/-- Some retained file of the packages with a path has the method. -/
def Module.HasMethod (module : Module) (options : IndexOptions) (path typeName : String)
    (shape : MethodShape) : Prop :=
  ∃ package ∈ module.packageList, package.path = path ∧ ∃ file ∈ package.files,
    options.retainsFile file = true ∧ file.HasMethod options typeName shape

/-- **The method set of a struct is read off the files.** -/
theorem mem_methodSet_iff_hasMethod {module : Module} {options : IndexOptions} {index : Index}
    {excludes : Excludes} (keyed : ∀ file ∈ module.sourceFiles, file.Keyed)
    (built : (module.index options).run = .ok (.ok index)) {struct : Symbol}
    {shape : MethodShape} :
    shape ∈ methodSet index excludes struct ↔ matchesAny excludes.methods shape.name = false ∧
      module.HasMethod options struct.package struct.name shape := by
  have drawn := (Module.index_spec built).2.1
  have depicts := Module.depicts_of_symbols drawn
  rw [mem_methodSet_iff (Module.symbols_spec drawn).1]
  constructor
  · rintro ⟨method, listed, ⟨parent, kind, package, kept⟩, rfl⟩
    obtain ⟨declared, inside, one⟩ := exists_mem_of_forall₂ depicts.flip listed
    obtain ⟨owner, among, retained⟩ :=
      List.mem_flatMap.mp ((Module.listed_perm keyed).mem_iff.mp inside)
    refine ⟨kept, owner, among, ?_⟩
    rcases List.mem_append.mp retained with clause | items
    · obtain ⟨file, -, rfl⟩ := List.mem_map.mp clause
      cases kind.symm.trans one.kind
    · obtain ⟨file, held, declares⟩ := List.mem_flatMap.mp items
      obtain ⟨item, member, rfl⟩ := List.mem_map.mp declares
      obtain ⟨owned, taken⟩ := List.mem_filter.mp held
      obtain ⟨there, keeps⟩ := List.mem_filter.mp member
      refine ⟨one.package.symm.trans package, file, owned, taken, item, there, keeps,
        one.kind.symm.trans kind, one.parentType.symm.trans parent, one.name, ?_⟩
      rw [Symbol.shape, one.typeText]
  · rintro ⟨kept, package, among, path, file, owned, taken, item, there, keeps, kind, parent, name,
      signature⟩
    have inside : (⟨package, file, item⟩ : Declared) ∈ module.listed options := by
      refine (Module.listed_perm keyed).mem_iff.mpr (List.mem_flatMap.mpr ⟨package, among, ?_⟩)
      exact List.mem_append_right _ (List.mem_flatMap.mpr ⟨file, List.mem_filter.mpr ⟨owned, taken⟩,
        List.mem_map_of_mem (List.mem_filter.mpr ⟨there, keeps⟩)⟩)
    obtain ⟨method, listed, one⟩ := exists_mem_of_forall₂ depicts inside
    have same : method.name = shape.name := Option.some.inj (one.name.symm.trans name)
    refine ⟨method, listed, ⟨one.parentType.trans parent, one.kind.trans kind,
      one.package.trans path, same ▸ kept⟩, ?_⟩
    rw [Symbol.shape, one.typeText, same, signature]

/-- **Enriched packages have the same methods for the types that they have.** -/
theorem Module.Enriched.hasMethod_iff {module image : Module} (enriched : module.Enriched image)
    (laid : ∀ file ∈ module.sourceFiles, ∃ lexemes, file.LaidOut lexemes)
    (keyed : ∀ file ∈ image.sourceFiles, file.Keyed) {options : IndexOptions}
    {path typeName : String} (stale : ∀ package ∈ module.packageList, package.path = path →
      package.declares typeName = true) {shape : MethodShape} :
    image.HasMethod options path typeName shape ↔ module.HasMethod options path typeName shape := by
  have known {package : Package} (listed : package ∈ module.packageList)
      (here : package.path = path) : ¬package.declares typeName = false := by
    rw [stale package listed here]
    exact Bool.noConfusion
  constructor
  · rintro ⟨grown, among, here, file, owned, retained, has⟩
    have settled := keyed file (List.mem_flatMap.mpr ⟨grown, among, owned⟩)
    obtain ⟨package, listed, one⟩ := exists_mem_of_forall₂ enriched.packages among
    have there : package.path = path := one.path.symm.trans here
    obtain ⟨images, added, split, each, bare⟩ := one.files
    rw [split] at owned
    rcases List.mem_append.mp owned with image | new
    · obtain ⟨former, held, same⟩ := exists_mem_of_forall₂ each image
      obtain ⟨lexemes, laid⟩ := laid former (List.mem_flatMap.mpr ⟨package, listed, held⟩)
      exact ⟨package, listed, there, former, held, (same.retainsFile options).symm.trans retained,
        (same.hasMethod_iff laid settled (known listed there)).mp has⟩
    · exact absurd has ((bare file new).not_hasMethod settled (known listed there))
  · rintro ⟨package, listed, here, former, held, retained, has⟩
    obtain ⟨grown, among, one⟩ := exists_mem_of_forall₂ enriched.packages.flip listed
    obtain ⟨images, added, split, each, bare⟩ := one.files
    obtain ⟨file, image, same⟩ := exists_mem_of_forall₂ each.flip held
    obtain ⟨lexemes, laid⟩ := laid former (List.mem_flatMap.mpr ⟨package, listed, held⟩)
    have owned : file ∈ grown.files := split ▸ List.mem_append_left _ image
    have settled := keyed file (List.mem_flatMap.mpr ⟨grown, among, owned⟩)
    exact ⟨grown, among, one.path.trans here, file, owned,
      (same.retainsFile options).trans retained,
      (same.hasMethod_iff laid settled (known listed here)).mpr has⟩

/-- A package has the names of its structs. -/
theorem Package.declares_of_implementers {package : Package} {options : IndexOptions}
    (keyed : ∀ file ∈ package.files, file.Keyed) {struct : Implementer}
    (member : struct ∈ package.implementers options) :
    struct.package = package.path ∧ package.declares struct.name = true := by
  obtain ⟨file, held, among⟩ := List.mem_flatMap.mp member
  obtain ⟨decl, kept, rfl⟩ := List.mem_map.mp among
  obtain ⟨owned, -⟩ := List.mem_filter.mp held
  have listed := (mem_sortBy _ _ _).mp (List.mem_filter.mp (List.mem_filter.mp kept).1).1
  obtain ⟨⟨name, decl⟩, entry, rfl⟩ := List.mem_map.mp listed
  refine ⟨rfl, List.any_eq_true.mpr ⟨file, owned, ?_⟩⟩
  have same : name = decl.name := (keyed file owned).types _ entry
  have contains : file.types.contains decl.name = true :=
    List.any_eq_true.mpr ⟨(name, decl), entry, by simpa using same⟩
  simp only [SourceFile.declares, contains, Bool.true_or]

/-- **In enriched packages the same is discovered.** -/
theorem Module.Enriched.discover_eq {module image : Module} (enriched : module.Enriched image)
    (addressed : ∀ package ∈ module.packageList, module.package? package.path = some package)
    (laid : ∀ file ∈ module.sourceFiles, ∃ lexemes, file.LaidOut lexemes)
    (keyed : ∀ file ∈ module.sourceFiles, file.Keyed)
    (keyed' : ∀ file ∈ image.sourceFiles, file.Keyed) {choice : IndexOptions} {index index' : Index}
    (built : (module.index choice).run = .ok (.ok index))
    (built' : (image.index choice).run = .ok (.ok index')) (options : ExtractionOptions) :
    discover index' options = discover index options := by
  unfold discover
  cases options.excludes with
  | error error => rfl
  | ok excludes =>
    have drawn := (Module.index_spec built).2.1
    have drawn' := (Module.index_spec built').2.1
    rw [bind_ok, bind_ok, SymbolTable.ofKind_eq_filter (Module.symbols_spec drawn').1,
      SymbolTable.ofKind_eq_filter (Module.symbols_spec drawn).1]
    refine congrArg (fun patterns : NameMap MethodPattern => pure (patterns.values.filter _))
      (foldl_addImplementer_congr ?_ ∅)
    have structs : (index'.symbols.toList.filter fun symbol => symbol.kind == .struct).map
        Symbol.implementer =
          (index.symbols.toList.filter fun symbol => symbol.kind == .struct).map
            Symbol.implementer := by
      rw [map_implementer_symbols drawn, map_implementer_symbols drawn', List.flatMap_def,
        List.flatMap_def]
      exact congrArg List.flatten
        (map_eq_map_of_forall₂ _ _ (fun _ _ one => one.implementers choice) enriched.packages)
    refine (forall₂_of_map_eq structs.symm).imp fun struct' struct ⟨_, listed, same⟩ => ?_
    refine ⟨same.symm, methodSet_eq_iff.mpr fun shape => ?_⟩
    have member : struct.implementer ∈
        module.packageList.flatMap fun package => package.implementers choice := by
      rw [← map_implementer_symbols drawn]
      exact List.mem_map_of_mem listed
    obtain ⟨owner, among, known⟩ := List.mem_flatMap.mp member
    obtain ⟨path, declares⟩ := Package.declares_of_implementers
      (fun file held => keyed file (List.mem_flatMap.mpr ⟨owner, among, held⟩)) known
    have stale : ∀ package ∈ module.packageList, package.path = struct.package →
        package.declares struct.name = true := by
      intro package inside here
      have found := addressed package inside
      rw [here.trans path, addressed owner among] at found
      cases found
      exact declares
    injection same with name package
    rw [mem_methodSet_iff_hasMethod keyed built, mem_methodSet_iff_hasMethod keyed' built', ← name,
      ← package]
    exact and_congr_right' (enriched.hasMethod_iff laid keyed' stale)

end GoRefactor
