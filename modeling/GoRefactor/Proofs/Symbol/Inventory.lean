import GoRefactor.Proofs.Edit.Visited
import GoRefactor.Proofs.Module.Sources
import GoRefactor.Proofs.Symbol.Retention
import Mathlib.Algebra.Order.Group.Multiset
import Mathlib.Data.List.Forall2
import Mathlib.Data.List.Perm.Basic
import Mathlib.Tactic.Abel

/-!
# One symbol for each declaration

What a module declares, listed one sort of declaration after the other, whatever order a build
takes them in. The symbols of a build match the declarations that its options retain, one to one. A
build lists methods in two rounds, with the types of their file and apart from them; between them
the rounds list each method once, because no two types of a file have one name.
-/

namespace GoRefactor

/-- Something that a file declares, with the declaration that it belongs to. -/
inductive Item where
  /-- The package, by the package clause. -/
  | package (name : String) (span : Span)
  /-- An import. -/
  | importing (decl : Import)
  /-- A type. -/
  | type (decl : TypeDecl)
  /-- A field of a struct. -/
  | field (parent : TypeDecl) (field : Field)
  /-- A method that an interface asks for. -/
  | interfaceMethod (parent : TypeDecl) (method : InterfaceMethod)
  /-- A function or method. -/
  | function (decl : FuncDecl)
  /-- A variable. -/
  | var (decl : ValueDecl)
  /-- A constant. -/
  | const (decl : ValueDecl)
  /-- A receiver, parameter or result of a function or method. -/
  | param (owner : FuncDecl) (param : Param)

namespace Item

/-- What it is as a symbol. -/
def kind : Item → SymbolKind
  | package .. => .package
  | importing _ => .imported
  | type decl => Draft.kindOfType decl
  | field .. => .field
  | interfaceMethod .. => .method
  | function decl => if decl.receiverTypeName.isSome then .method else .function
  | var _ => .var
  | const _ => .const
  | param .. => .parameter

/-- Its name; parameters may have none. -/
def name? : Item → Option String
  | package name _ => some name
  | importing decl => some decl.localName
  | type decl => some decl.name
  | field _ held => some held.name
  | interfaceMethod _ method => some method.name
  | function decl => some decl.name
  | var decl | const decl => some decl.name
  | param _ held => held.name

/-- Where the name stands. -/
def nameSpan? : Item → Option Span
  | package _ span => some span
  | importing decl => some decl.nameSpan
  | type decl => some decl.nameSpan
  | field _ held => some held.nameSpan
  | interfaceMethod _ method => some method.nameSpan
  | function decl => some decl.nameSpan
  | var decl | const decl => some decl.nameSpan
  | param _ held => held.nameSpan

/-- The type that it is a member of. -/
def parentType : Item → Option String
  | field parent _ | interfaceMethod parent _ => some parent.name
  | function decl => decl.receiverTypeName
  | _ => none

/-- The function that it belongs to, behind the type that the function is a method of. -/
def ownerNames : Item → List String
  | param owner _ => owner.receiverTypeName.toList ++ [owner.name]
  | _ => []

/-- The same function in full, if there is one. -/
def container (item : Item) : Option String :=
  match item with
  | param .. => some (".".intercalate item.ownerNames)
  | _ => none

/-- The text that it is declared with: a signature, a type, or the path of an import. -/
def typeText? (file : SourceFile) : Item → Option String
  | importing decl => some decl.path
  | field _ held => some (file.text held.typeSpan)
  | interfaceMethod _ method => some (file.text method.signatureSpan)
  | function decl => some (file.text decl.signatureSpan)
  | var decl | const decl => decl.typeSpan.map file.text
  | param _ held => some (file.text held.typeSpan)
  | package .. | type _ => none

/-- Packages and imports are declared for a whole file. -/
def isOuter : Item → Bool
  | package .. | importing _ => true
  | _ => false

end Item

/-- The options retain it. -/
def IndexOptions.retainsItem (options : IndexOptions) : Item → Bool
  | .package .. | .importing _ => true
  | .param .. => options.includePrivate
  | item => options.includePrivate || item.name?.any isExported

/-- The parameter has a name and a place for it, and the name is not blank. -/
def Param.isNamed (param : Param) : Bool :=
  param.name.any (· != "_") && param.nameSpan.isSome

namespace SourceFile

/-- Functions and methods. -/
def allFunctions (file : SourceFile) : List FuncDecl := file.functions.values ++ file.methods

/-- All that a file declares. A dot or blank import binds no name of its own, an embedded field is
a use of its type, and values that are declared blank are kept for the names that they use. -/
def items (file : SourceFile) : List Item :=
  (file.imports.filter fun decl => !decl.isDot && !decl.isBlank).map .importing ++
  file.types.values.map .type ++
  (file.types.values.flatMap fun decl =>
    (decl.fields.filter fun field => !field.embedded).map (.field decl)) ++
  (file.types.values.flatMap fun decl => decl.interfaceMethods.map (.interfaceMethod decl)) ++
  file.allFunctions.map .function ++
  (file.allFunctions.flatMap fun decl => (decl.allParams.filter Param.isNamed).map (.param decl)) ++
  file.vars.values.map .var ++
  file.consts.values.map .const

end SourceFile

/-- A declaration with its file and package. -/
structure Declared where
  /-- The package. -/
  package : Package
  /-- The file. -/
  file : SourceFile
  /-- What is declared. -/
  item : Item

/-- The declarations of a package that the options retain: the package itself if some file is
retained, named by the first one, and what its retained files declare. -/
def Package.retained (package : Package) (options : IndexOptions) : List Declared :=
  let files := package.files.filter options.retainsFile
  (files.head?.toList.map fun file =>
    ⟨package, file, .package file.packageName file.packageSpan⟩) ++
  files.flatMap fun file => (file.items.filter options.retainsItem).map (⟨package, file, ·⟩)

/-- The declarations of a module that the options retain. -/
def Module.retained (module : Module) (options : IndexOptions) : List Declared :=
  module.packageList.flatMap fun package => package.retained options

/-- The symbol is the one of the declaration. -/
structure Symbol.Describes (symbol : Symbol) (declared : Declared) : Prop where
  /-- Its kind. -/
  kind : symbol.kind = declared.item.kind
  /-- Its name. -/
  name : declared.item.name? = some symbol.name
  /-- Where the name stands. -/
  nameSpan : declared.item.nameSpan? = some symbol.nameSpan
  /-- The file that declares it. -/
  file : symbol.file = declared.file.path
  /-- The package that declares it. -/
  package : symbol.package = declared.package.path
  /-- The type that it is a member of. -/
  parentType : symbol.parentType = declared.item.parentType
  /-- The function that it belongs to. -/
  container : symbol.container = declared.item.container
  /-- Path of the package, parent type, owning function and name, with dots between them. -/
  qualifiedName : declared.item.isOuter = false →
    symbol.qualifiedName = ".".intercalate (declared.package.path ::
      declared.item.parentType.toList ++ declared.item.ownerNames ++ [symbol.name])

/-- The symbol is the one of the declaration, and has the text that this is declared with. -/
structure Symbol.Depicts (symbol : Symbol) (declared : Declared) : Prop
    extends symbol.Describes declared where
  /-- Declared type or signature. -/
  typeText : symbol.typeText = declared.item.typeText? declared.file

/-- The number of a symbol is no part of what it says of the declaration. -/
theorem Symbol.depicts_unnumbered {symbol : Symbol} {declared : Declared} :
    symbol.unnumbered.Depicts declared ↔ symbol.Depicts declared := by
  constructor <;> rintro ⟨⟨⟩, text⟩ <;> refine ⟨?_, text⟩ <;> constructor <;> assumption

/-! ## The order of a build -/

/-- A function or method, then its parameters. -/
def FuncDecl.items (decl : FuncDecl) : List Item :=
  .function decl :: (decl.allParams.filter Param.isNamed).map (.param decl)

/-- A type, its members, and its methods from the same file. -/
def TypeDecl.items (file : SourceFile) (decl : TypeDecl) : List Item :=
  .type decl ::
    (decl.fields.filter fun field => !field.embedded).map (.field decl) ++
    decl.interfaceMethods.map (.interfaceMethod decl) ++
    (file.methodsOf decl.name).flatMap FuncDecl.items

/-- All that a file declares, in the order in which a build lists it. -/
def SourceFile.listing (file : SourceFile) : List Item :=
  (file.imports.filter fun decl => !decl.isDot && !decl.isBlank).map .importing ++
  (inTextOrder (·.nameSpan.start) file.types.values).flatMap (TypeDecl.items file) ++
  (file.methods.filter (Draft.isDetached file)).flatMap FuncDecl.items ++
  (inTextOrder (·.nameSpan.start) file.functions.values).flatMap FuncDecl.items ++
  (inTextOrder (·.nameSpan.start) file.vars.values).map .var ++
  (inTextOrder (·.nameSpan.start) file.consts.values).map .const

namespace Draft

/-- Name in full. -/
def fullName (package : Package) (draft : Draft) : String :=
  if draft.qualifiedName.isEmpty then s!"{package.path}.{draft.name}" else draft.qualifiedName

/-- The draft is that of the item. -/
structure Shows (package : Package) (file : SourceFile) (draft : Draft) (item : Item) : Prop where
  kind : draft.kind = item.kind
  name : item.name? = some draft.name
  nameSpan : item.nameSpan? = some draft.nameSpan
  parentType : draft.parentType = item.parentType
  container : draft.container = item.container
  typeText : draft.typeText = item.typeText? file
  fullName : item.isOuter = false → draft.fullName package = ".".intercalate (package.path ::
    item.parentType.toList ++ item.ownerNames ++ [draft.name])

/-- Lists that are made member by member match where the members do. -/
theorem forall₂_flatMap {α β γ : Type} {rel : β → γ → Prop} {first : α → List β}
    {second : α → List γ} {values : List α}
    (each : ∀ value, List.Forall₂ rel (first value) (second value)) :
    List.Forall₂ rel (values.flatMap first) (values.flatMap second) := by
  induction values with
  | nil => exact .nil
  | cons head rest ih =>
    rw [List.flatMap_cons, List.flatMap_cons]
    exact List.rel_append (each head) ih

/-- Values made from the members of one list are related if those made from each member are. -/
theorem forall₂_map {α β γ : Type} {rel : β → γ → Prop} {first : α → β} {second : α → γ}
    {values : List α} (each : ∀ value, rel (first value) (second value)) :
    List.Forall₂ rel (values.map first) (values.map second) :=
  List.forall₂_map_left_iff.mpr
    (List.forall₂_map_right_iff.mpr (List.forall₂_same.mpr fun value _ => each value))

variable {package : Package} {file : SourceFile} {options : IndexOptions}

/-- A name with a dot in it is not empty. -/
theorem isEmpty_joined (front back : String) : (s!"{front}.{back}").isEmpty = false := by
  have dot : toString "." ≠ "" := by decide
  simp [dot]

/-- A name that is given in full is kept. -/
theorem fullName_of_joined {draft : Draft} {front back : String}
    (given : draft.qualifiedName = s!"{front}.{back}") :
    draft.fullName package = s!"{front}.{back}" := by
  rw [fullName, given, isEmpty_joined]
  rfl

/-- The options retain a draft exactly if they retain the item that it shows. -/
theorem Shows.retains {draft : Draft} {item : Item} (shows : draft.Shows package file item) :
    options.retains draft.kind draft.name = options.retainsItem item := by
  have name := shows.name
  rw [shows.kind]
  generalize draft.name = given at name ⊢
  cases item with
  | type decl =>
    cases name
    change options.retains (kindOfType decl) decl.name = _
    unfold kindOfType
    split <;> rfl
  | function decl =>
    cases name
    change options.retains (if decl.receiverTypeName.isSome then .method else .function) _ = _
    split <;> rfl
  | package | importing | param => rfl
  | field | interfaceMethod | var | const =>
    cases name
    rfl

/-- The drafts of parameters show the parameters with names. -/
theorem shows_ofParam? {decl : FuncDecl} {owned qualified : String}
    (container : owned = ".".intercalate (decl.receiverTypeName.toList ++ [decl.name]))
    (full : ∀ name, s!"{qualified}.{name}" = ".".intercalate (package.path ::
      (decl.receiverTypeName.toList ++ [decl.name]) ++ [name])) (params : List Param) :
    List.Forall₂ (Shows package file) (params.filterMap (ofParam? file owned qualified))
      ((params.filter Param.isNamed).map (.param decl)) := by
  induction params with
  | nil => exact .nil
  | cons param rest ih =>
    obtain ⟨name, nameSpan, typeSpan, typeNode⟩ := param
    cases name with
    | none => exact ih
    | some name =>
      cases nameSpan with
      | none =>
        have unnamed : Param.isNamed ⟨some name, none, typeSpan, typeNode⟩ = false :=
          Bool.and_false _
        rw [List.filter_cons_of_neg (by rw [unnamed]; exact Bool.false_ne_true)]
        exact ih
      | some nameSpan =>
        by_cases blank : name = "_"
        · subst blank
          exact ih
        · have named : Param.isNamed ⟨some name, some nameSpan, typeSpan, typeNode⟩ = true := by
            simp [Param.isNamed, blank]
          have given :
              ofParam? file owned qualified ⟨some name, some nameSpan, typeSpan, typeNode⟩ =
              some ⟨.parameter, name, nameSpan,
                Span.between nameSpan.start (max typeSpan.stop nameSpan.stop),
                s!"{qualified}.{name}", none, some owned, some (file.text typeSpan), none⟩ := by
            exact if_neg (by simpa using blank)
          rw [List.filter_cons_of_pos named, List.filterMap_cons_some given, List.map_cons]
          refine .cons ⟨rfl, rfl, rfl, rfl, congrArg some container, rfl, fun _ => ?_⟩ ih
          exact (fullName_of_joined rfl).trans (full name)

/-- The drafts of a function show the function and then its parameters. -/
theorem shows_ofFunc (decl : FuncDecl) :
    List.Forall₂ (Shows package file) (ofFunc package file decl) decl.items := by
  unfold ofFunc FuncDecl.items
  cases given : decl.receiverTypeName with
  | none =>
    refine .cons ⟨?_, rfl, rfl, given.symm, rfl, rfl, fun _ => (fullName_of_joined rfl).trans ?_⟩
      (shows_ofParam? (by rw [given]; rfl) (fun name => by rw [given]; rfl) _)
    · rw [Item.kind, given]
    · rw [Item.parentType, given]
      rfl
  | some parent =>
    have joined : package.path ++ "." ++ (parent ++ "." ++ decl.name) =
        ".".intercalate [package.path, parent, decl.name] := by
      change _ = package.path ++ "." ++ parent ++ "." ++ decl.name
      simp only [String.append_assoc]
    refine .cons ⟨?_, rfl, rfl, given.symm, rfl, rfl, fun _ => (fullName_of_joined rfl).trans ?_⟩
      (shows_ofParam? (by rw [given]; rfl) (fun name => ?_) _)
    · rw [Item.kind, given]
    · rw [Item.parentType, given]
      exact joined
    · rw [given]
      exact congrArg (fun full => s!"{full}.{name}") joined

/-- The drafts of a type show the type with its members and methods. -/
theorem shows_ofType (decl : TypeDecl) :
    List.Forall₂ (Shows package file) (ofType package file decl) (decl.items file) := by
  unfold ofType TypeDecl.items
  refine List.rel_append
    (List.rel_append (.cons ⟨rfl, rfl, rfl, rfl, rfl, rfl, fun _ => rfl⟩ ?_) ?_) ?_
  · exact forall₂_map fun field =>
      ⟨rfl, rfl, rfl, rfl, rfl, rfl, fun _ => (fullName_of_joined rfl).trans rfl⟩
  · exact forall₂_map fun method =>
      ⟨rfl, rfl, rfl, rfl, rfl, rfl, fun _ => (fullName_of_joined rfl).trans rfl⟩
  · exact forall₂_flatMap shows_ofFunc

/-- The drafts of a file show all that it declares. -/
theorem shows_ofFile : List.Forall₂ (Shows package file) (ofFile package file) file.listing := by
  unfold ofFile SourceFile.listing
  refine List.rel_append (List.rel_append (List.rel_append (List.rel_append (List.rel_append
    ?_ ?_) ?_) ?_) ?_) ?_
  · exact forall₂_map fun decl => ⟨rfl, rfl, rfl, rfl, rfl, rfl, fun outer => nomatch outer⟩
  · exact forall₂_flatMap shows_ofType
  · exact forall₂_flatMap shows_ofFunc
  · exact forall₂_flatMap shows_ofFunc
  · exact forall₂_map fun decl => ⟨rfl, rfl, rfl, rfl, rfl, rfl, fun _ => rfl⟩
  · exact forall₂_map fun decl => ⟨rfl, rfl, rfl, rfl, rfl, rfl, fun _ => rfl⟩

/-- A draft becomes a symbol of the item that it shows if the item is retained, else nothing. -/
theorem Shows.depicts {draft : Draft} {item : Item} (shows : draft.Shows package file item)
    {lines : LineIndex} {result : Option Symbol}
    (drawn : (draft.toSymbol? options package file lines).run = .ok (.ok result)) :
    (options.retainsItem item = true ∧
      ∃ symbol, result = some symbol ∧ symbol.Depicts ⟨package, file, item⟩) ∨
    (options.retainsItem item = false ∧ result = none) := by
  unfold toSymbol? at drawn
  obtain ⟨extent, -, drawn⟩ := Attempt.run_bind_eq_ok.mp drawn
  rw [shows.retains] at drawn
  cases retained : options.retainsItem item with
  | false =>
    rw [retained] at drawn
    cases drawn
    exact Or.inr ⟨rfl, rfl⟩
  | true =>
    rw [retained, if_pos rfl] at drawn
    dsimp only at drawn
    split at drawn
    · cases drawn
    · cases drawn
      exact Or.inl ⟨rfl, _, rfl, ⟨shows.kind, shows.name, shows.nameSpan, rfl, rfl,
        shows.parentType, shows.container, shows.fullName⟩, shows.typeText⟩

/-- The symbols of drafts are those of the items that are retained. -/
theorem depicts_of_toSymbols {drafts : List Draft} (items : List Item) {symbols : List Symbol}
    (shown : List.Forall₂ (Shows package file) drafts items)
    (drawn : (toSymbols options package file drafts).run = .ok (.ok symbols)) :
    List.Forall₂ Symbol.Depicts symbols
      ((items.filter options.retainsItem).map (⟨package, file, ·⟩)) := by
  obtain ⟨found, given, same⟩ := Attempt.run_bind_eq_ok.mp drawn
  cases same
  have matched := Attempt.run_mapM_eq_ok.mp given
  clear given drawn
  induction shown generalizing found with
  | nil =>
    cases matched
    exact .nil
  | cons one _ ih =>
    cases matched with
    | cons given others =>
      rcases one.depicts given with ⟨retained, symbol, rfl, depicts⟩ | ⟨dropped, rfl⟩
      · rw [List.filter_cons_of_pos retained]
        exact .cons depicts (ih _ others)
      · rw [List.filter_cons_of_neg (by rw [dropped]; exact Bool.false_ne_true)]
        have rest := ih _ others
        exact rest

end Draft

/-! ## The same declarations, sort by sort -/

section Perm

variable {α β : Type}

/-- Making one thing and then others of each member makes the same as one thing of all and then the
others. -/
theorem flatMap_cons_perm (first : α → β) (others : α → List β) (values : List α) :
    (values.flatMap fun value => first value :: others value).Perm
      (values.map first ++ values.flatMap others) := by
  rw [List.map_eq_flatMap]
  exact (List.flatMap_append_perm values (fun value => [first value]) others).symm

/-- Members picked out by one of some names each, and those with none of the names, are all. -/
theorem picked_append_rest_perm (nameOf : β → Option String) {names : List String}
    (distinct : names.Nodup) (members : List β) :
    ((names.flatMap fun name => members.filter fun member => nameOf member == some name) ++
      members.filter fun member => !names.any fun name => nameOf member == some name).Perm
        members := by
  induction names generalizing members with
  | nil => simp
  | cons head rest ih =>
    obtain ⟨fresh, distinct⟩ := List.nodup_cons.mp distinct
    let others := members.filter fun member => !(nameOf member == some head)
    -- None of the others is picked out by the first name, so taking them apart changes nothing.
    have picked :
        (rest.flatMap fun name => members.filter fun member => nameOf member == some name) =
        rest.flatMap fun name => others.filter fun member => nameOf member == some name := by
      refine List.flatMap_congr fun name inside => ?_
      rw [List.filter_filter]
      refine List.filter_congr fun member _ => ?_
      cases named : nameOf member == some name with
      | false => rfl
      | true =>
        have different : name ≠ head := fun same => fresh (same ▸ inside)
        simp [eq_of_beq named, different]
    have left : (members.filter fun member =>
        !(head :: rest).any fun name => nameOf member == some name) =
        others.filter fun member => !rest.any fun name => nameOf member == some name := by
      rw [List.filter_filter]
      refine List.filter_congr fun member _ => ?_
      rw [List.any_cons, Bool.not_or, Bool.and_comm]
    rw [List.flatMap_cons, picked, left, List.append_assoc]
    exact ((ih distinct others).append_left _).trans (List.filter_append_perm _ members)

end Perm

namespace SourceFile

/-- The methods of each type, and those that belong to no type of the file, are all methods. -/
theorem methods_perm {file : SourceFile} (keyed : file.types.Keyed TypeDecl.name) :
    ((file.types.values.flatMap fun decl => file.methodsOf decl.name) ++
      file.methods.filter (Draft.isDetached file)).Perm file.methods := by
  have apart (method : FuncDecl) : Draft.isDetached file method =
      !(file.types.values.map TypeDecl.name).any fun name =>
        method.receiverTypeName == some name := by
    unfold Draft.isDetached
    rw [keyed.map_values]
    cases method.receiverTypeName with
    | none => simp
    | some parent =>
      simp only [NameMap.contains, NameMap.keys, List.any_map]
      congr 2
      funext entry
      simp [eq_comm]
  have every := picked_append_rest_perm FuncDecl.receiverTypeName keyed.nodup file.methods
  rwa [List.flatMap_map, ← funext apart] at every

/-- **What a build lists is what the file declares.** -/
theorem listing_perm {file : SourceFile} (keyed : file.types.Keyed TypeDecl.name) :
    file.listing.Perm file.items := by
  let fields (decl : TypeDecl) : List Item :=
    (decl.fields.filter fun field => !field.embedded).map (.field decl)
  let asked (decl : TypeDecl) : List Item := decl.interfaceMethods.map (.interfaceMethod decl)
  let owned (decl : TypeDecl) : List Item := (file.methodsOf decl.name).flatMap FuncDecl.items
  let params (decl : FuncDecl) : List Item :=
    (decl.allParams.filter Param.isNamed).map (.param decl)
  have types : (file.types.values.flatMap (TypeDecl.items file)).Perm
      (file.types.values.map .type ++ (file.types.values.flatMap fields ++
        file.types.values.flatMap asked ++ file.types.values.flatMap owned)) := by
    refine (flatMap_cons_perm Item.type
      (fun decl => fields decl ++ asked decl ++ owned decl) _).trans
      (List.Perm.append_left _ ?_)
    exact (List.flatMap_append_perm _ _ owned).symm.trans
      ((List.flatMap_append_perm _ fields asked).symm.append_right _)
  have methods : (file.types.values.flatMap owned ++
      (file.methods.filter (Draft.isDetached file)).flatMap FuncDecl.items).Perm
        (file.methods.flatMap FuncDecl.items) := by
    have every := (methods_perm keyed).flatMap_right FuncDecl.items
    rwa [List.flatMap_append, List.flatMap_assoc] at every
  have functions : (file.allFunctions.flatMap FuncDecl.items).Perm
      (file.allFunctions.map .function ++ file.allFunctions.flatMap params) :=
    flatMap_cons_perm Item.function params _
  have split : file.allFunctions.flatMap FuncDecl.items =
      file.functions.values.flatMap FuncDecl.items ++ file.methods.flatMap FuncDecl.items :=
    List.flatMap_append
  have sorted {α : Type} (start : α → Nat) (values : List α) (make : α → List Item) :
      ((inTextOrder start values).flatMap make).Perm (values.flatMap make) :=
    (sortBy_perm _ _).flatMap_right make
  have sorted' {α : Type} (start : α → Nat) (values : List α) (make : α → Item) :
      ((inTextOrder start values).map make).Perm (values.map make) :=
    (sortBy_perm _ _).map make
  rw [split] at functions
  refine Multiset.coe_eq_coe.mp ?_
  have types := Multiset.coe_eq_coe.mpr ((sorted (·.nameSpan.start) _ _).trans types)
  have methods := Multiset.coe_eq_coe.mpr methods
  have functions := Multiset.coe_eq_coe.mpr functions
  have values (values : NameMap ValueDecl) (make : ValueDecl → Item) :=
    Multiset.coe_eq_coe.mpr (sorted' (·.nameSpan.start) values.values make)
  have plain := Multiset.coe_eq_coe.mpr
    (sorted (·.nameSpan.start) file.functions.values FuncDecl.items)
  unfold listing items
  simp only [fields, asked, params, ← Multiset.coe_add] at types methods functions ⊢
  rw [types, plain, values, values, add_assoc _ (List.map Item.function _ : Multiset Item),
    ← functions, ← methods]
  abel

end SourceFile

/-- The same declarations of a package in the order of a build: the package, then file by file. -/
def Package.listed (package : Package) (options : IndexOptions) : List Declared :=
  let files := package.files.filter options.retainsFile
  (files.head?.toList.map fun file =>
    ⟨package, file, .package file.packageName file.packageSpan⟩) ++
  files.flatMap fun file => (file.listing.filter options.retainsItem).map (⟨package, file, ·⟩)

/-- The declarations of a module that the options retain, in the order of a build. -/
def Module.listed (module : Module) (options : IndexOptions) : List Declared :=
  module.packageList.flatMap fun package => package.listed options

/-- The symbols of a package depict what a build lists. -/
theorem Package.depicts_of_symbols {package : Package} {options : IndexOptions}
    {symbols : List Symbol} (drawn : (package.symbols options).run = .ok (.ok symbols)) :
    List.Forall₂ Symbol.Depicts symbols (package.listed options) := by
  obtain ⟨found, given, same⟩ := Attempt.run_bind_eq_ok.mp drawn
  cases same
  have matched := Attempt.run_mapM_eq_ok.mp given
  unfold Draft.ofPackageFiles at matched
  unfold Package.listed
  cases retained : package.files.filter options.retainsFile with
  | nil =>
    rw [retained] at matched
    cases matched
    exact .nil
  | cons first rest =>
    rw [retained] at matched
    cases matched with
    | cons one others =>
      have named := Draft.depicts_of_toSymbols [.package first.packageName first.packageSpan]
        (.cons ⟨rfl, rfl, rfl, rfl, rfl, rfl, fun outer => nomatch outer⟩ .nil) one
      refine List.rel_append named (List.rel_flatten (List.forall₂_map_right_iff.mpr ?_))
      exact (List.forall₂_map_left_iff.mp others).flip.imp fun file part drawn =>
        Draft.depicts_of_toSymbols _ Draft.shows_ofFile drawn

namespace Module

variable {module : Module} {options : IndexOptions}

/-- **The symbols of a module depict what a build lists, in order.** -/
theorem depicts_of_symbols {table : SymbolTable}
    (drawn : (module.symbols options).run = .ok (.ok table)) :
    List.Forall₂ Symbol.Depicts table.toList (module.listed options) := by
  obtain ⟨found, given, same⟩ := Attempt.run_bind_eq_ok.mp drawn
  cases same
  have depicts : List.Forall₂ Symbol.Depicts found.flatten (module.listed options) := by
    refine List.rel_flatten (List.forall₂_map_right_iff.mpr ?_)
    exact (Attempt.run_mapM_eq_ok.mp given).flip.imp fun _ _ => Package.depicts_of_symbols
  have again : List.Forall₂ Symbol.Depicts ((numberSymbols found.flatten).map Symbol.unnumbered)
      (module.listed options) := by
    unfold numberSymbols
    rw [map_mapIdx_of_keeps Symbol.unnumbered_numbered]
    exact List.forall₂_map_left_iff.mpr (depicts.imp fun _ _ => Symbol.depicts_unnumbered.mpr)
  exact (List.forall₂_map_left_iff.mp again).imp fun _ _ => Symbol.depicts_unnumbered.mp

/-- What a build lists is what is retained. -/
theorem listed_perm (keyed : ∀ file ∈ module.sourceFiles, file.Keyed) :
    (module.listed options).Perm (module.retained options) := by
  refine List.Perm.flatMap_left _ fun package listed => ?_
  refine List.Perm.append_left _ (List.Perm.flatMap_left _ fun file member => ?_)
  have held : file ∈ module.sourceFiles :=
    List.mem_flatMap.mpr ⟨package, listed, (List.mem_filter.mp member).1⟩
  exact ((SourceFile.listing_perm (keyed file held).types).filter _).map _

/-- The symbols of a module match its declarations. -/
theorem exists_order_of_symbols {table : SymbolTable}
    (keyed : ∀ file ∈ module.sourceFiles, file.Keyed)
    (drawn : (module.symbols options).run = .ok (.ok table)) :
    ∃ order : List Declared, order.Perm (module.retained options) ∧
      List.Forall₂ Symbol.Describes table.toList order :=
  ⟨module.listed options, listed_perm keyed,
    (depicts_of_symbols drawn).imp fun _ _ depicts => depicts.toDescribes⟩

/-- **Symbols match the declarations that are retained, one to one.** -/
theorem symbols_match_retained {module : Module} {options : IndexOptions} {table : SymbolTable}
    (keyed : ∀ file ∈ module.sourceFiles, file.Keyed)
    (drawn : (module.symbols options).run = .ok (.ok table)) :
    ∃ order : List Declared, order.Perm (module.retained options) ∧
      List.Forall₂ Symbol.Describes table.toList order ∧
      table.toList.map (·.id) = List.range table.size := by
  obtain ⟨order, same, describes⟩ := exists_order_of_symbols keyed drawn
  exact ⟨order, same, describes, (symbols_spec drawn).2.1⟩

/-- A method with its type, another apart from any, an embedded field and a blank parameter. -/
def methodsApart : List (String × String) :=
  [("p.go", "package p\n\ntype T struct \x7b\n\tU\n\tn int\n\x7d\n\n" ++
    "func (u U) m() \x7b\x7d\n\nfunc (t T) m(x, _ int) \x7b\x7d\n")]

/-- Both methods are listed once, and neither the embedded field nor the blank parameter. -/
theorem symbols_match_retained_methodsApart :
    ∃ module table order, ofSources "m" methodsApart = .ok module ∧
      (module.symbols .full).run = .ok (.ok table) ∧
      table.toList.map (·.qualifiedName) =
        ["m", "m.T", "m.T.n", "m.T.m", "m.T.m.t", "m.T.m.x", "m.U.m", "m.U.m.u"] ∧
      order.Perm (module.retained .full) ∧ List.Forall₂ Symbol.Describes table.toList order := by
  have evaluated : checkOk (ofSources "m" methodsApart) (fun module =>
      checkOk (module.symbols .full).run fun ending => checkOk ending fun table =>
        decide (table.toList.map (·.qualifiedName) =
          ["m", "m.T", "m.T.n", "m.T.m", "m.T.m.t", "m.T.m.x", "m.U.m", "m.U.m.u"])) = true := by
    decide +kernel
  obtain ⟨module, loaded, checked⟩ := exists_of_checkOk evaluated
  obtain ⟨ending, drawn, ended⟩ := exists_of_checkOk checked
  obtain ⟨table, rfl, names⟩ := exists_of_checkOk ended
  obtain ⟨order, same, describes, -⟩ := symbols_match_retained
    (fun file held => SourceFile.keyed_of_parse (scanned_of_ofSources loaded file held)) drawn
  exact ⟨module, table, order, loaded, drawn, of_decide_eq_true names, same, describes⟩

end Module

end GoRefactor
