import GoRefactor.Proofs.Transform.Declaring
import GoRefactor.Proofs.Transform.Housed

/-!
# What an extraction leaves

An extraction that succeeds carries out its plan. Every file ends as its former text, or the text it
was created with, and the declarations that were planned for it, and nothing else is touched. A
declaration is read on its own before its types are registered. So what stood in a file stays,
unless an appended text declares, beside its interface, a type that the file has already.
-/

namespace GoRefactor

open ExtractionPlan

/-- The declaration, read on its own behind a package clause, declares a type with the name. -/
def PlannedInterface.Declares (planned : PlannedInterface) (packageName name : String) : Prop :=
  ∃ snippet, scanFile planned.change.file
      ("package " ++ packageName ++ "\n" ++ planned.rendered) = .ok snippet ∧
    snippet.types.contains name = true

/-- Read on its own behind a package clause, the declaration declares the type under the name, if
not at the same place. -/
def PlannedInterface.Brings (planned : PlannedInterface) (packageName name : String)
    (decl : TypeDecl) : Prop :=
  ∃ snippet original delta, scanFile planned.change.file
      ("package " ++ packageName ++ "\n" ++ planned.rendered) = .ok snippet ∧
    snippet.types.get? name = some original ∧ decl = (SpanVisitor.shift delta).typeDecl original

/-- The interface is appended to the text, or is the text of a new file behind a package clause. -/
def PlannedInterface.PlacedOn (planned : PlannedInterface) : Option String → Prop
  | some text =>
    planned.placement = .append (appendEdit planned.change.file text planned.rendered) ∧
      planned.change.after = (appendEdit planned.change.file text planned.rendered).replacement
  | none => ∃ package : Package, planned.placement = .create package.path ∧
      planned.change.after = "package " ++ package.name ++ "\n\n" ++ planned.rendered

/-- The interface is inserted at the end of the text of its file, as the change tells; a new file
starts with nothing. -/
structure PlannedInterface.AtEnd (planned : PlannedInterface) (text : Option String) : Prop where
  /-- Nothing gives way. -/
  inserts : planned.change.before = ""
  /-- The place is the end of the text. -/
  place : Position.IsAt ⟨planned.change.line, planned.change.column⟩ (text.getD "").toList
    (text.getD "").utf8ByteSize
  /-- What is inserted is the declaration. -/
  placed : planned.PlacedOn text

/-- What is placed on a text goes to the end of it. -/
theorem ExtractionOptions.atEnd_placed (package : Package) (path name rendered : String)
    (text : Option String) : (placed package path name rendered text).AtEnd text := by
  cases text with
  | some text =>
    refine ⟨rfl, ?_, rfl, rfl⟩
    have place := @LineIndex.isAt_position text.toList []
    rw [List.append_nil, byteLength_toList] at place
    exact place
  | none =>
    exact ⟨rfl, ⟨[], [], [], rfl, rfl, Or.inl rfl, List.not_mem_nil, rfl⟩, package, rfl, rfl⟩

/-- What is placed adds to a text. -/
theorem ExtractionOptions.after_placed_pos (package : Package) (path name rendered : String)
    (text : Option String) :
    0 < (placed package path name rendered text).change.after.utf8ByteSize := by
  cases text with
  | some text =>
    have break1 : "\n".utf8ByteSize = 1 := by decide
    have break2 : "\n\n".utf8ByteSize = 2 := by decide
    change 0 < ((if endsWith text "\n" then "\n" else "\n\n") ++ rendered).utf8ByteSize
    rw [String.utf8ByteSize_append]
    split <;> omega
  | none =>
    have clause : "package ".utf8ByteSize = 8 := by decide
    change 0 < ("package " ++ package.name ++ "\n\n" ++ rendered).utf8ByteSize
    simp only [String.utf8ByteSize_append]
    omega

/-- The types that a declaration declares on its own are registered under their names. -/
theorem mem_snippetTypes_iff {planned : PlannedInterface} {packageName : String} {landing : Nat}
    {types : List (String × TypeDecl)}
    (made : snippetTypes planned.change.file packageName planned.rendered landing = .ok types)
    (name : String) : name ∈ types.map Prod.fst ↔ planned.Declares packageName name := by
  unfold snippetTypes at made
  obtain ⟨snippet, read, given⟩ := bind_eq_ok.mp made
  have listed : name ∈ types.map Prod.fst ↔ snippet.types.contains name = true := by
    cases given
    rw [NameMap.contains_iff_mem_keys, NameMap.keys, List.map_map]
    refine iff_of_eq (congrArg (name ∈ ·) (List.map_congr_left ?_))
    rintro ⟨_, _⟩ -
    rfl
  rw [listed]
  constructor
  · exact fun held => ⟨snippet, read, held⟩
  · rintro ⟨other, read', held⟩
    cases read.symm.trans read'
    exact held

/-- What is registered for a declaration is what it brings. -/
theorem brings_of_mem_snippetTypes {planned : PlannedInterface} {packageName name : String}
    {landing : Nat} {types : List (String × TypeDecl)} {decl : TypeDecl}
    (made : snippetTypes planned.change.file packageName planned.rendered landing = .ok types)
    (member : (name, decl) ∈ types) : planned.Brings packageName name decl := by
  unfold snippetTypes at made
  obtain ⟨snippet, read, given⟩ := bind_eq_ok.mp made
  cases given
  obtain ⟨⟨_, original⟩, held, same⟩ := List.mem_map.mp member
  cases same
  exact ⟨snippet, original, _, read, NameMap.get?_eq_some_iff.mpr held, rfl⟩

namespace SourceFile

/-- A file after interfaces are declared at its end. The text, the types and the flag apart, it is
the former file. -/
structure Extended (interfaces : List PlannedInterface) (file image : SourceFile) : Prop where
  /-- Whatever is no type stays, methods and values included. -/
  rest : image = { file with
    content := image.content, types := image.types, modified := image.modified }
  /-- The file is flagged if something was added. -/
  flag : image.modified = (file.modified || !interfaces.isEmpty)
  /-- A type stays under its name, unless a declaration declares the name on its own. -/
  kept : ∀ name decl, file.types.get? name = some decl → image.types.get? name = some decl ∨
    ∃ planned ∈ interfaces, planned.Declares file.packageName name
  /-- The types afterwards are the former ones and those of the declarations. -/
  types : ∀ name, image.types.contains name = true ↔ file.types.contains name = true ∨
    ∃ planned ∈ interfaces, planned.Declares file.packageName name
  /-- A type that was not there is one that a declaration brings. -/
  others : ∀ name decl, image.types.get? name = some decl → file.types.get? name = some decl ∨
    ∃ planned ∈ interfaces, planned.Brings file.packageName name decl
  /-- Each declaration can be read on its own. -/
  read : ∀ planned ∈ interfaces, ∃ snippet, scanFile planned.change.file
    ("package " ++ file.packageName ++ "\n" ++ planned.rendered) = .ok snippet

namespace Extended

variable {file between image : SourceFile} {interfaces : List PlannedInterface}

/-- Nothing is declared. -/
theorem refl (file : SourceFile) : file.Extended [] file :=
  ⟨rfl, by simp, fun _ _ held => Or.inl held, by simp, fun _ _ held => Or.inl held,
    fun _ none => nomatch none⟩

/-- One interface is declared, then others. -/
theorem cons {planned : PlannedInterface} (here : planned.change.file = file.path)
    (grows : file.extend planned.rendered = .ok between)
    (later : between.Extended interfaces image) : file.Extended (planned :: interfaces) image := by
  unfold SourceFile.extend at grows
  obtain ⟨types, made, given⟩ := bind_eq_ok.mp grows
  rw [← here] at made
  cases given
  have names := mem_snippetTypes_iff made
  refine ⟨?_, ?_, fun name decl held => ?_, fun name => ?_, fun name decl found => ?_,
    List.forall_mem_cons.mpr ⟨?_, later.read⟩⟩
  · rw [later.rest]
    rfl
  · rw [later.flag]
    simp [SourceFile.flagged]
  · by_cases declares : planned.Declares file.packageName name
    · exact Or.inr ⟨planned, List.mem_cons_self, declares⟩
    · have other := fun member => declares ((names name).mp member)
      rcases later.kept name decl ((NameMap.get?_foldl_insert other _).trans held) with
        still | ⟨next, member, again⟩
      · exact Or.inl still
      · exact Or.inr ⟨next, List.mem_cons_of_mem _ member, again⟩
  · rw [later.types name, List.exists_mem_cons_iff, ← or_assoc]
    refine or_congr_left ?_
    exact (NameMap.contains_foldl_insert types name _).trans (or_congr_right (names name))
  · rcases later.others name decl found with held | ⟨next, member, brings⟩
    · rcases NameMap.get?_or_mem_of_foldl_insert held with former | registered
      · exact Or.inl former
      · exact Or.inr ⟨planned, List.mem_cons_self, brings_of_mem_snippetTypes made registered⟩
    · exact Or.inr ⟨next, List.mem_cons_of_mem _ member, brings⟩
  · obtain ⟨snippet, read, -⟩ := bind_eq_ok.mp made
    exact ⟨snippet, read⟩

end Extended

/-- **What becomes of a file, interface by interface, extends it.** -/
theorem extended_of_foldlM {interfaces : List PlannedInterface} {file : SourceFile}
    {result : Option SourceFile}
    (here : ∀ planned ∈ interfaces, planned.change.file = file.path)
    (filed : interfaces.foldlM (fun file planned => some <$> planned.declaredIn file) (some file) =
      .ok result) : ∃ image, result = some image ∧ file.Extended interfaces image := by
  induction interfaces generalizing file with
  | nil =>
    cases filed
    exact ⟨file, rfl, .refl file⟩
  | cons planned rest ih =>
    obtain ⟨first, others⟩ := List.forall_mem_cons.mp here
    rw [List.foldlM_cons] at filed
    obtain ⟨next, stepped, filed⟩ := bind_eq_ok.mp filed
    obtain ⟨between, grows, rfl⟩ := map_eq_ok.mp stepped
    have path : between.path = file.path := by
      have given := grows
      unfold PlannedInterface.declaredIn SourceFile.extend at given
      obtain ⟨types, -, same⟩ := bind_eq_ok.mp given
      cases same
      rfl
    obtain ⟨image, rfl, later⟩ :=
      ih (fun other member => (others other member).trans path.symm) filed
    exact ⟨image, rfl, later.cons first grows⟩

end SourceFile

namespace ExtractionPlan

/-- Interfaces behind others are planned on what those leave. -/
theorem plannedOn_split {texts : String → Option String} {front back : List PlannedInterface}
    (planned : PlannedOn texts (front ++ back)) :
    PlannedOn texts front ∧ PlannedOn (textsAfter texts front) back := by
  induction front generalizing texts with
  | nil => exact ⟨trivial, planned⟩
  | cons first rest ih =>
    obtain ⟨one, others⟩ := planned
    obtain ⟨before, behind⟩ := ih others
    exact ⟨⟨one, before⟩, behind⟩

end ExtractionPlan

/-- Interfaces are declared behind others that are declared first. -/
theorem Module.declareInterfaces_append {module final : Module} {front back : List PlannedInterface}
    (declared : module.declareInterfaces (front ++ back) = .ok (final, none)) :
    ∃ between, module.declareInterfaces front = .ok (between, none) ∧
      between.declareInterfaces back = .ok (final, none) := by
  induction front generalizing module with
  | nil => exact ⟨module, rfl, declared⟩
  | cons first rest ih =>
    rw [List.cons_append, declareInterfaces] at declared
    rw [declareInterfaces]
    rcases step : module.declareInterface first with fault | stopped | next
    · rw [step] at declared
      cases declared
    · rw [step] at declared
      cases declared
    · rw [step] at declared
      exact ih declared

/-- Every declared interface is recorded once. -/
theorem Module.revision_declareInterfaces {module final : Module}
    {interfaces : List PlannedInterface} (bounded : module.revision < UInt64.size)
    (declared : module.declareInterfaces interfaces = .ok (final, none)) :
    final.revision = (module.revision + interfaces.length) % UInt64.size := by
  induction interfaces generalizing module with
  | nil =>
    cases declared
    exact (Nat.mod_eq_of_lt bounded).symm
  | cons first rest ih =>
    rcases declareInterfaces_cons.mp declared with ⟨next, step, later⟩ | ⟨_, -, -, none⟩
    · have raised : next.revision = (module.revision + 1) % UInt64.size :=
        revision_declareInterface step
      rw [ih (raised ▸ Nat.mod_lt _ (Nat.two_pow_pos 64)) later, raised, Nat.mod_add_mod,
        List.length_cons, Nat.add_assoc, Nat.add_comm 1]
    · cases none

/-- No text of a module with short files is too long. -/
theorem Module.Small.text? {module : Module} (small : module.Small) {path : String} :
    ∀ text ∈ module.text? path, text.utf8ByteSize < 2 ^ 63 := by
  intro text known
  obtain ⟨file, held, rfl⟩ := Option.map_eq_some_iff.mp known
  exact small file (mem_of_file? held).1

namespace ExtractionOptions

/-- An extraction carried out its plan. -/
structure Extracts (module : Module) (plan : ExtractionPlan) (final : Module) (outcome : Outcome) :
    Prop where
  /-- What interfaces add to a file stands behind its former text, in the order of the plan. -/
  contents : ∀ path, final.text? path =
    if goingTo plan.interfaces path = [] then module.text? path
    else some ((module.text? path).getD "" ++ addition plan.interfaces path)
  /-- Files that no interface goes to stay as they are, flags included. -/
  untouched : ∀ path, goingTo plan.interfaces path = [] → final.file? path = module.file? path
  /-- Each interface is put at the end of the text that the interfaces before it leave. -/
  moments : ∀ front planned back, plan.interfaces = front ++ planned :: back →
    ∃ between, module.declareInterfaces front = .ok (between, none) ∧
      planned.AtEnd (between.text? planned.change.file)
  /-- The changes of the plan are reported, by file and place. -/
  changes : outcome.changes = sortChanges (plan.interfaces.map (·.change))
  /-- The affected files are those whose text changed and those that are new. -/
  affected : ∀ path, path ∈ outcome.affectedFiles ↔ final.text? path ≠ module.text? path
  /-- Every interface raises the revision by one. -/
  revision : final.revision = (module.revision + plan.interfaces.length) % UInt64.size

/-- What an extraction kept and declared. -/
structure Keeps (module : Module) (plan : ExtractionPlan) (final : Module) : Prop where
  /-- Each former file is there, extended by the interfaces that go to it. -/
  extended : ∀ file ∈ module.sourceFiles, ∃ image, final.file? file.path = some image ∧
    file.Extended (goingTo plan.interfaces file.path) image
  /-- No interface takes a name that its file had. -/
  free : ∀ file ∈ module.sourceFiles, ∀ planned ∈ goingTo plan.interfaces file.path,
    file.declares planned.name = false
  /-- Each interface is declared in its file. -/
  declared : ∀ planned ∈ plan.interfaces, ∃ image, final.file? planned.change.file = some image ∧
    image.types.contains planned.name = true

variable {options : ExtractionOptions} {module final : Module} {outcome : Outcome}
  {plan : ExtractionPlan}

/-- What is affected has another text. -/
theorem affected_iff (placed : ∀ planned ∈ plan.interfaces,
      0 < planned.change.after.utf8ByteSize)
    (texts : ∀ path, final.text? path =
      if goingTo plan.interfaces path = [] then module.text? path
      else some ((module.text? path).getD "" ++ addition plan.interfaces path)) (path : String) :
    path ∈ (options.report plan).affectedFiles ↔ final.text? path ≠ module.text? path := by
  have listed : path ∈ (options.report plan).affectedFiles ↔
      ∃ planned ∈ plan.interfaces, planned.change.file = path := by
    rw [Outcome.affectedFiles, distinctSorted, List.mem_eraseDups, sortTexts, mem_sortBy]
    simp [report, Outcome.succeeded, sortChanges, mem_sortBy]
  have going : goingTo plan.interfaces path = [] ↔
      ¬∃ planned ∈ plan.interfaces, planned.change.file = path := by
    simp [goingTo]
  rw [listed, texts]
  by_cases none : goingTo plan.interfaces path = []
  · rw [if_pos none]
    exact iff_of_false (going.mp none) fun changed => changed rfl
  · rw [if_neg none]
    refine iff_of_true (not_not.mp fun missing => none (going.mpr missing)) fun same => ?_
    obtain ⟨first, rest, goes⟩ := List.exists_cons_of_ne_nil none
    have long := placed first (List.mem_filter.mp
      (show first ∈ goingTo plan.interfaces path from goes ▸ List.mem_cons_self)).1
    cases former : module.text? path with
    | none =>
      rw [former] at same
      cases same
    | some text =>
      rw [former, Option.getD_some, Option.some_inj, addition, goes, List.map_cons,
        String.join_cons] at same
      have size := congrArg String.utf8ByteSize same
      rw [String.utf8ByteSize_append, String.utf8ByteSize_append] at size
      omega

/-- When it is its turn, an interface is placed at the end of the text that those before it leave.
-/
theorem exists_moment {module final : Module} (distinct : module.DistinctPaths)
    {front back : List PlannedInterface} {planned : PlannedInterface}
    (on : PlannedOn module.text? (front ++ planned :: back))
    (declared : module.declareInterfaces (front ++ planned :: back) = .ok (final, none)) :
    ∃ between, module.declareInterfaces front = .ok (between, none) ∧
      between.text? = textsAfter module.text? front ∧
      planned.AtEnd (between.text? planned.change.file) := by
  obtain ⟨before, ⟨package, path, name, rendered, rfl⟩, -⟩ := plannedOn_split on
  obtain ⟨between, reached, -⟩ := Module.declareInterfaces_append declared
  have texts := (Module.carries_of_declareInterfaces distinct before reached).texts
  refine ⟨between, reached, texts, ?_⟩
  rw [file_placed, texts]
  exact atEnd_placed package path name rendered _

/-- A file without interfaces before it is created by its first. -/
theorem exists_created {module final : Module} (distinct : module.DistinctPaths)
    {interfaces : List PlannedInterface} (on : PlannedOn module.text? interfaces)
    (declared : module.declareInterfaces interfaces = .ok (final, none)) {path : String}
    (absent : module.file? path = none) {first : PlannedInterface} {rest : List PlannedInterface}
    (goes : goingTo interfaces path = first :: rest) :
    ∃ package : Package, first.placement = .create package.path ∧
      first.change.after = "package " ++ package.name ++ "\n\n" ++ first.rendered := by
  obtain ⟨front, back, rfl, none, here, -⟩ := List.filter_eq_cons_iff.mp goes
  obtain ⟨between, -, texts, atEnd⟩ := exists_moment distinct on declared
  have untouched : goingTo front path = [] := List.filter_eq_nil_iff.mpr none
  have text : between.text? first.change.file = Option.none := by
    rw [texts, eq_of_beq here, textsAfter_eq, if_pos untouched, Module.text?, absent]
    rfl
  have placed := atEnd.placed
  rw [text] at placed
  exact placed

variable {interfaces : List PlannedInterface}

/-- What carries out interfaces extends the former files. -/
theorem extended_of_carries (distinct : module.DistinctPaths)
    (scanned : ∀ file ∈ module.sourceFiles, file.Scanned)
    (carries : module.Carries final interfaces) (small : final.Small) {file : SourceFile}
    (held : file ∈ module.sourceFiles) : ∃ image, final.file? file.path = some image ∧
      file.Extended (goingTo interfaces file.path) image := by
  have found := Module.file?_path distinct held
  have settled : ∀ other ∈ module.file? file.path, other.Settled := by
    rw [found]
    rintro _ ⟨⟩
    exact SourceFile.settled_of_parse (scanned file held)
  obtain ⟨filed, -⟩ := carries.filed file.path settled (small.text?)
  rw [found] at filed
  exact SourceFile.extended_of_foldlM
    (fun planned member => eq_of_beq (List.mem_filter.mp member).2) filed

/-- What carries out interfaces makes a new file of the first one that goes there, and extends it by
the others. -/
theorem exists_created_of_carries (distinct : module.DistinctPaths)
    (on : PlannedOn module.text? interfaces)
    (declared : module.declareInterfaces interfaces = .ok (final, none)) (small : final.Small)
    {path : String} (absent : module.file? path = none) {first : PlannedInterface}
    {rest : List PlannedInterface} (goes : goingTo interfaces path = first :: rest) :
    ∃ file image, scanFile path first.change.after = .ok file ∧ final.file? path = some image ∧
      file.flagged.Extended rest image := by
  have carries := Module.carries_of_declareInterfaces distinct on declared
  obtain ⟨filed, -⟩ := carries.filed path (by rw [absent]; exact fun _ none => nomatch none)
    small.text?
  have here : ∀ planned ∈ first :: rest, planned.change.file = path := fun planned member =>
    eq_of_beq (List.mem_filter.mp (show planned ∈ goingTo interfaces path from goes ▸ member)).2
  obtain ⟨goesFirst, others⟩ := List.forall_mem_cons.mp here
  unfold ExtractionPlan.filed at filed
  rw [goes, absent, List.foldlM_cons] at filed
  obtain ⟨step, made, filed⟩ := bind_eq_ok.mp filed
  obtain ⟨flagged, becomes, rfl⟩ := map_eq_ok.mp made
  obtain ⟨file, read, rfl⟩ := map_eq_ok.mp becomes
  rw [goesFirst] at read
  have there : file.flagged.path = path :=
    (SourceFile.path_of_parse (parse_of_scanFile read)).1
  obtain ⟨image, found, extended⟩ := SourceFile.extended_of_foldlM
    (fun other among => (others other among).trans there.symm) filed
  exact ⟨file, image, read, found, extended⟩

/-- A declaration that fits and can be read declares its interface. -/
theorem declares_name {planned : PlannedInterface} (fits : planned.Fits module)
    {packageName : String} (word : Lexeme.IsWord packageName.toList) {snippet : SourceFile}
    (read : scanFile planned.change.file
      ("package " ++ packageName ++ "\n" ++ planned.rendered) = .ok snippet) :
    planned.Declares packageName planned.name := by
  obtain ⟨pattern, onOneLine, rendered⟩ := fits.rendered
  refine ⟨snippet, read, ?_⟩
  have behind : planned.rendered.toList =
      List.replicate 0 '\n' ++ (renderInterface planned.name pattern).toList := by
    rw [rendered, List.replicate_zero, List.nil_append]
  exact SourceFile.types_contains_of_rendered fits.valid onOneLine behind word
    (parse_of_scanFile read)

/-- A file that is created for an interface is in a package of the module and declares the
interface. -/
theorem created_spec {planned : PlannedInterface} (fits : planned.Fits module)
    (words : ∀ package ∈ module.packageList,
      package.name = "" ∨ Lexeme.IsWord package.name.toList)
    {key : String} (created : planned.placement = .create key) {file : SourceFile}
    (scanned : scanFile planned.change.file planned.change.after = .ok file) :
    ∃ package ∈ module.packageList,
      planned.change.after = "package " ++ package.name ++ "\n\n" ++ planned.rendered ∧
      file.packageName = package.name ∧ file.types.contains planned.name = true := by
  obtain ⟨pattern, onOneLine, rendered⟩ := fits.rendered
  obtain ⟨package, listed, after⟩ := fits.clause key created
  have newline : "\n".toList = List.replicate 1 '\n' := rfl
  have behind : ("\n" ++ planned.rendered).toList =
      List.replicate 1 '\n' ++ (renderInterface planned.name pattern).toList := by
    rw [rendered, String.toList_append, newline]
  have parsed := parse_of_scanFile scanned
  have split : planned.change.after =
      "package " ++ package.name ++ "\n" ++ ("\n" ++ planned.rendered) := by
    rw [after]
    apply String.toList_inj.mp
    simp
  rw [split] at parsed
  rcases words package listed with empty | word
  · rw [empty] at parsed
    exact absurd parsed (SourceFile.parse_rendered_ne_ok fits.valid onOneLine behind file)
  · exact ⟨package, listed, after,
      SourceFile.packageName_of_rendered fits.valid onOneLine behind word parsed,
      SourceFile.types_contains_of_rendered fits.valid onOneLine behind word parsed⟩

/-- **Interfaces that are carried out are declared in their files.** -/
theorem declared_of_carries (distinct : module.DistinctPaths)
    (scanned : ∀ file ∈ module.sourceFiles, file.Scanned)
    (words : ∀ package ∈ module.packageList,
      package.name = "" ∨ Lexeme.IsWord package.name.toList)
    (on : PlannedOn module.text? interfaces)
    (declared : module.declareInterfaces interfaces = .ok (final, none))
    (fits : ∀ planned ∈ interfaces, planned.Fits module) (small : final.Small)
    {planned : PlannedInterface} (member : planned ∈ interfaces) :
    ∃ image, final.file? planned.change.file = some image ∧
      image.types.contains planned.name = true := by
  have carries := Module.carries_of_declareInterfaces distinct on declared
  have goes : planned ∈ goingTo interfaces planned.change.file :=
    List.mem_filter.mpr ⟨member, beq_self_eq_true _⟩
  cases held : module.file? planned.change.file with
  | some file =>
    obtain ⟨inside, here⟩ := Module.mem_of_file? held
    obtain ⟨image, found, extended⟩ := extended_of_carries distinct scanned carries small inside
    rw [here] at found extended
    obtain ⟨snippet, read⟩ := extended.read planned goes
    obtain ⟨lexemes, laid⟩ := SourceFile.laidOut_of_parse (scanned file inside)
    exact ⟨image, found, (extended.types _).mpr
      (Or.inr ⟨planned, goes, declares_name (fits planned member) laid.package read⟩)⟩
  | none =>
    cases led : goingTo interfaces planned.change.file with
    | nil =>
      rw [led] at goes
      cases goes
    | cons first rest =>
      obtain ⟨package, created, -⟩ := exists_created distinct on declared held led
      obtain ⟨file, image, read, found, extended⟩ :=
        exists_created_of_carries distinct on declared small held led
      refine ⟨image, found, (extended.types _).mpr ?_⟩
      rw [led] at goes
      rcases List.mem_cons.mp goes with rfl | later
      · obtain ⟨-, -, -, -, itself⟩ := created_spec (fits planned member) words created read
        exact Or.inl itself
      · obtain ⟨snippet, alone⟩ := extended.read planned later
        obtain ⟨lexemes, laid⟩ := SourceFile.laidOut_of_parse (parse_of_scanFile read)
        exact Or.inr ⟨planned, later, declares_name (fits planned member) laid.package alone⟩

/-- **An extraction does what it plans.** Former declarations stay, unless a declaration declares
the name of a type of its file besides its own. -/
theorem run_extracts (path : String) (sources : List (String × String)) (module final : Module)
    (options : ExtractionOptions) (outcome : Outcome)
    (loaded : Module.ofSources path sources = .ok module) (real : options.dryRun = false)
    (run : options.run Naming.interfaceName module = .ok (final, outcome))
    (succeeded : outcome.success = true) :
    ∃ plan, (options.plan Naming.interfaceName module).run = .ok (.ok plan) ∧
      Extracts module plan final outcome ∧ (final.Small → Keeps module plan final) := by
  obtain ⟨plan, planned, declared, rfl⟩ := exists_declared_of_success real run succeeded
  have distinct : module.DistinctPaths := Module.nodup_paths_of_ofSources loaded
  have scanned := Module.scanned_of_ofSources loaded
  have on := plannedOn_of_plan planned
  have carries := Module.carries_of_declareInterfaces distinct on declared
  have fits := fun interface member =>
    (fits_of_plan loaded Naming.nameFlaw?_interfaceName planned interface member).1
  have contents (path : String) : final.text? path =
      if goingTo plan.interfaces path = [] then module.text? path
      else some ((module.text? path).getD "" ++ addition plan.interfaces path) := by
    rw [carries.texts, textsAfter_eq]
  refine ⟨plan, planned, ⟨contents, carries.untouched, ?_, rfl, ?_, ?_⟩, fun small => ⟨?_, ?_, ?_⟩⟩
  · intro front moved back split
    obtain ⟨between, reached, -, atEnd⟩ := exists_moment distinct (split ▸ on) (split ▸ declared)
    exact ⟨between, reached, atEnd⟩
  · refine affected_iff (fun interface member => ?_) contents
    obtain ⟨front, back, split⟩ := List.append_of_mem member
    obtain ⟨-, ⟨package, path, name, rendered, placed⟩, -⟩ := plannedOn_split (split ▸ on)
    rw [placed]
    exact after_placed_pos package path name rendered _
  · exact Module.revision_declareInterfaces (Module.addressed_of_ofSources loaded).revision declared
  · exact fun file held => extended_of_carries distinct scanned carries small held
  · intro file held interface goes
    obtain ⟨member, same⟩ := List.mem_filter.mp goes
    refine (fits interface member).free file ?_
    rw [eq_of_beq same]
    exact Module.file?_path distinct held
  · exact fun interface member => declared_of_carries distinct scanned
      (fun package listed => Module.isWord_packageName loaded listed) on declared fits small member

/-- A struct whose method, written without parameters, holds the text of a declaration that takes
the struct's name. -/
def smuggledType : List (String × String) :=
  [("p/a.go", "package p\n\ntype A struct\x7b\x7d\n\n" ++
    "func (a A) F struct\x7b a [x([1 2]\x7b\x7d; type A int)]T \x7d \x7b\x7d\n")]

/-- What the witness looks at: the extraction is carried out, and the struct has given way. -/
def smuggles (module final : Module) (outcome : Outcome) : Bool :=
  outcome.success && final.sourceFiles.all (fun file => file.content.utf8ByteSize < 2 ^ 63) &&
    (module.sourceFiles.map fun file => file.types.values.map fun decl =>
      (decl.name, Draft.kindOfType decl)) == [[("A", .struct)]] &&
    (final.sourceFiles.map fun file => file.types.values.map fun decl =>
      (decl.name, Draft.kindOfType decl)) == [[("A", .type), ("Fer", .interface)]]

/-- The interface is declared as planned, but the struct is lost to the type that its text declares
besides. -/
theorem run_extracts_smuggledType :
    ∃ module final outcome plan, Module.ofSources "m" smuggledType = .ok module ∧
      ExtractionOptions.run { minTypes := 1 } Naming.interfaceName module = .ok (final, outcome) ∧
      outcome.success = true ∧ Extracts module plan final outcome ∧ Keeps module plan final ∧
      smuggles module final outcome = true := by
  have evaluated : checkOk (Module.ofSources "m" smuggledType) (fun module =>
      checkOk (ExtractionOptions.runPlanned { minTypes := 1 } Naming.interfaceName module)
        fun ran => smuggles module ran.1 ran.2) = true := by
    decide +kernel
  obtain ⟨module, loaded, checked⟩ := exists_of_checkOk evaluated
  obtain ⟨⟨final, outcome⟩, run, seen⟩ := exists_of_checkOk checked
  rw [← run_eq_runPlanned] at run
  have told := seen
  simp only [smuggles, Bool.and_eq_true, List.all_eq_true, decide_eq_true_eq] at told
  obtain ⟨⟨⟨succeeded, small⟩, -⟩, -⟩ := told
  obtain ⟨plan, -, extracts, keeps⟩ := run_extracts "m" smuggledType module final { minTypes := 1 }
    outcome loaded rfl run succeeded
  exact ⟨module, final, outcome, plan, loaded, run, succeeded, extracts, keeps small, seen⟩

end ExtractionOptions

end GoRefactor
