import GoRefactor.Proofs.Attempt
import GoRefactor.Module.Build
import GoRefactor.Symbol.Index
import Mathlib.Data.List.Lex

/-!
# Promoted members

A member of a type is searched in the type itself and then, one embedded type after the other, in
the embedded ones, each with all that it embeds before the next. So the member that is found ends
the first chain of embeddings that leads to one. It need not be the shallowest: a chain with fewer
steps that branches off at a later embedded type is not tried.
-/

namespace GoRefactor

namespace ModuleScope

/-- A declared type, by package and name. -/
abbrev TypeName := String × String

variable (scope : ModuleScope)

/-- The declaration of a type, with its file and what its package declares. -/
def declared? (type : TypeName) : Option (PackageScope × SourceFile × TypeDecl) :=
  (scope.packages.get? type.1).bind fun decls =>
    (decls.names.get? type.2).bind fun site =>
      site.typeDecl?.map fun decl => (decls, site.file, decl)

/-- The types that a shape embeds, as far as they are declared in the module. -/
def embeddedTypes (package : String) (file : SourceFile) : TypeShape → List GoType
  | .struct fields => fields.filterMap fun field =>
    if field.embedded then scope.typeOf package file field.typeNode else none
  | .interface _ embeds => (scope.typesOf package file embeds).filterMap id
  | .other _ => []

/-- The types that a type embeds, in order. -/
def embeds (type : TypeName) : List TypeName :=
  match scope.declared? type with
  | none => []
  | some (_, file, decl) =>
    (scope.embeddedTypes type.1 file decl.shape).filterMap GoType.name?

/-- A field, embedded or not, or an interface method of a shape has the name. -/
def ShapeHas (name : String) : TypeShape → Prop
  | .struct fields => ∃ field ∈ fields, field.name = name
  | .interface methods _ => ∃ method ∈ methods, method.name = name
  | .other _ => False

/-- A type has a field, an interface method or a declared method of the name. -/
def Owns (type : TypeName) (name : String) : Prop :=
  ∃ decls file decl, scope.declared? type = some (decls, file, decl) ∧
    ((decls.method? type.2 name).isSome ∨ ShapeHas name decl.shape)

/-- What a type itself answers for a name that it has. There is no answer for an embedded field
whose type is not declared in the module. -/
def ownAnswer? (type : TypeName) (name : String) : Option (Option Member) :=
  (scope.declared? type).bind fun (decls, file, decl) =>
    match decls.method? type.2 name with
    | some (file, method) =>
      some (some {
        file := file.path
        nameSpan := method.nameSpan
        results := scope.paramTypes type.1 file method.results })
    | none =>
      match scope.searchShape type.1 file name decl.shape with
      | .settled member => some member
      | .promoted _ => none

/-- The type at the end of a chain of embeddings. A chain says which embedded type is taken at each
step. -/
def follow : TypeName → List Nat → Option TypeName
  | type, [] => some type
  | type, place :: path => (scope.embeds type)[place]?.bind fun inner => follow inner path

/-- A chain ends at the first type on it that has the name, which answers so. -/
inductive Ends (name : String) : TypeName → List Nat → Option Member → Prop where
  /-- The type has the name. -/
  | own {type answer} (owned : scope.ownAnswer? type name = some answer) : Ends name type [] answer
  /-- The type does not have it, and the chain goes on in an embedded type. -/
  | step {type inner place path answer} (foreign : scope.ownAnswer? type name = none)
    (taken : (scope.embeds type)[place]? = some inner) (rest : Ends name inner path answer) :
    Ends name type (place :: path) answer

variable {scope}

/-! ## One type -/

/-- A search among fields is left to the embedded types where no field has the name. -/
theorem searchFields_eq_promoted_iff {package name : String} {file : SourceFile}
    {fields : List Field} {before found : List GoType} :
    scope.searchFields package file name before fields = .promoted found ↔
      (∀ field ∈ fields, field.name ≠ name) ∧
        found = before.reverse ++ scope.embeddedTypes package file (.struct fields) := by
  induction fields generalizing before with
  | nil =>
    have bare : scope.embeddedTypes package file (.struct []) = [] := rfl
    rw [searchFields, FieldSearch.promoted.injEq, bare, List.append_nil]
    exact ⟨fun same => ⟨List.forall_mem_nil _, same.symm⟩, fun given => given.2.symm⟩
  | cons field rest ih =>
    by_cases here : field.name = name
    · have settles : ∃ answer, scope.searchFields package file name before (field :: rest) =
          .settled answer := by
        rw [searchFields]
        by_cases inner : field.embedded = true
        · exact ⟨_, by rw [if_pos inner, if_pos (beq_iff_eq.mpr here)]⟩
        · exact ⟨_, by rw [if_neg inner, if_pos (beq_iff_eq.mpr here)]⟩
      obtain ⟨answer, settled⟩ := settles
      rw [settled]
      constructor
      · intro given
        cases given
      · rintro ⟨others, -⟩
        exact absurd here (others field List.mem_cons_self)
    · have apart : ¬(field.name == name) = true := fun same => here (eq_of_beq same)
      rw [searchFields]
      by_cases inner : field.embedded = true
      · rw [if_pos inner, if_neg apart, ih]
        simp only [List.forall_mem_cons, embeddedTypes, List.filterMap_cons, if_pos inner]
        cases scope.typeOf package file field.typeNode <;> simp [here]
      · rw [if_neg inner, if_neg apart, ih]
        simp only [List.forall_mem_cons, embeddedTypes, List.filterMap_cons, if_neg inner]
        simp [here]

/-- A search in a shape is left to the embedded types where the shape does not have the name. -/
theorem searchShape_eq_promoted_iff {package name : String} {file : SourceFile}
    {shape : TypeShape} {found : List GoType} :
    scope.searchShape package file name shape = .promoted found ↔
      ¬ShapeHas name shape ∧ found = scope.embeddedTypes package file shape := by
  cases shape with
  | struct fields =>
    rw [searchShape, searchFields_eq_promoted_iff, ShapeHas]
    simp
  | interface methods embeds =>
    rw [searchShape, ShapeHas]
    cases met : methods.find? fun method => method.name == name with
    | some method =>
      have same : method.name = name := by simpa using List.find?_some met
      have listed := List.mem_of_find?_eq_some met
      constructor
      · intro given
        cases given
      · rintro ⟨none, -⟩
        exact absurd ⟨method, listed, same⟩ none
    | none =>
      have none : ¬∃ method ∈ methods, method.name = name := by
        rintro ⟨method, listed, same⟩
        have missed := List.find?_eq_none.mp met method listed
        exact missed (beq_iff_eq.mpr same)
      rw [FieldSearch.promoted.injEq, embeddedTypes]
      exact ⟨fun same => ⟨none, same.symm⟩, fun given => given.2.symm⟩
  | other node =>
    rw [searchShape, FieldSearch.promoted.injEq]
    exact ⟨fun same => ⟨id, same.symm⟩, fun given => given.2.symm⟩

/-- A type answers for the names that it has, and for no others. -/
theorem isSome_ownAnswer?_iff {type : TypeName} {name : String} :
    (scope.ownAnswer? type name).isSome ↔ scope.Owns type name := by
  unfold ownAnswer? Owns
  cases scope.declared? type with
  | none => simp
  | some site =>
    obtain ⟨decls, file, decl⟩ := site
    simp only [Option.bind_some, Option.some.injEq, Prod.mk.injEq]
    cases met : decls.method? type.2 name with
    | some method => exact ⟨fun _ => ⟨_, _, _, ⟨rfl, rfl, rfl⟩, Or.inl (by rw [met]; rfl)⟩,
        fun _ => rfl⟩
    | none =>
      cases searched : scope.searchShape type.1 file name decl.shape with
      | settled answer =>
        refine ⟨fun _ => ⟨_, _, _, ⟨rfl, rfl, rfl⟩, Or.inr ?_⟩, fun _ => rfl⟩
        by_contra lacks
        have promoted : scope.searchShape type.1 file name decl.shape =
            .promoted (scope.embeddedTypes type.1 file decl.shape) :=
          searchShape_eq_promoted_iff.mpr ⟨lacks, rfl⟩
        rw [searched] at promoted
        cases promoted
      | promoted found =>
        constructor
        · intro given
          cases given
        · rintro ⟨_, _, _, ⟨rfl, rfl, rfl⟩, method | has⟩
          · rw [met] at method
            cases method
          · exact absurd has (searchShape_eq_promoted_iff.mp searched).1

/-- One step of the search: the type answers, or the embedded types are searched in order. -/
theorem memberWithin_succ (fuel : Nat) (type : TypeName) (name : String) :
    scope.memberWithin (fuel + 1) type.1 type.2 name =
      match scope.ownAnswer? type name with
      | some answer => answer
      | none => (scope.embeds type).findSome? fun inner =>
        scope.memberWithin fuel inner.1 inner.2 name := by
  unfold ownAnswer? embeds declared?
  rw [memberWithin]
  cases scope.packages.get? type.1 with
  | none => rfl
  | some decls =>
    simp only [Option.bind_some]
    cases decls.names.get? type.2 with
    | none => rfl
    | some site =>
      simp only [Option.bind_some, Site.typeDecl?]
      cases site.decl with
      | func decl => rfl
      | value decl => rfl
      | type decl =>
        simp only [Option.map_some, Option.bind_some]
        cases decls.method? type.2 name with
        | some method => rfl
        | none =>
          cases searched : scope.searchShape type.1 site.file name decl.shape with
          | settled answer => rfl
          | promoted found =>
            rw [(searchShape_eq_promoted_iff.mp searched).2]

/-! ## Chains -/

/-- A chain that ends at a type is a chain to it, and the type has the name. -/
theorem Ends.owner {name : String} {type : TypeName} {path : List Nat} {answer : Option Member}
    (ends : scope.Ends name type path answer) :
    ∃ owner, scope.follow type path = some owner ∧ scope.ownAnswer? owner name = some answer := by
  induction ends with
  | own owned => exact ⟨_, rfl, owned⟩
  | step foreign taken rest ih =>
    obtain ⟨owner, reached, owned⟩ := ih
    exact ⟨owner, by rw [follow, taken]; exact reached, owned⟩

/-- No type in front of the end of a chain has the name. -/
theorem Ends.foreign {name : String} {type : TypeName} {path : List Nat} {answer : Option Member}
    (ends : scope.Ends name type path answer) :
    ∀ front, front <+: path → front ≠ path → ∀ passed, scope.follow type front = some passed →
      ¬scope.Owns passed name := by
  induction ends with
  | own owned =>
    intro front within apart
    exact absurd (List.prefix_nil.mp within) apart
  | @step type inner place path answer foreign taken rest ih =>
    intro front within apart passed reached
    cases front with
    | nil =>
      cases reached
      rw [← isSome_ownAnswer?_iff, foreign]
      exact Bool.false_ne_true
    | cons first front =>
      obtain ⟨rfl, inside⟩ := List.cons_prefix_cons.mp within
      rw [follow, taken] at reached
      exact ih front inside (fun same => apart (by rw [same])) passed reached

/-- A chain to a type that has the name ends there or before. -/
theorem exists_ends {name : String} : ∀ {path : List Nat} {type owner : TypeName},
    scope.follow type path = some owner → scope.Owns owner name →
      ∃ front answer, front <+: path ∧ scope.Ends name type front answer
  | [], type, owner, reached, owns => by
    cases reached
    obtain ⟨answer, owned⟩ := Option.isSome_iff_exists.mp (isSome_ownAnswer?_iff.mpr owns)
    exact ⟨[], answer, List.nil_prefix, .own owned⟩
  | place :: path, type, owner, reached, owns => by
    cases owned : scope.ownAnswer? type name with
    | some answer => exact ⟨[], answer, List.nil_prefix, .own owned⟩
    | none =>
      rw [follow] at reached
      obtain ⟨inner, taken, reached⟩ := Option.bind_eq_some_iff.mp reached
      obtain ⟨front, answer, within, ends⟩ := exists_ends reached owns
      exact ⟨place :: front, answer, List.cons_prefix_cons.mpr ⟨rfl, within⟩,
        .step owned taken ends⟩

/-- Where a type has the name, the empty chain is the only one that ends. -/
theorem Ends.eq_nil {name : String} {type : TypeName} {path : List Nat}
    {answer answer' : Option Member} (ends : scope.Ends name type path answer)
    (owned : scope.ownAnswer? type name = some answer') : path = [] ∧ answer = answer' := by
  cases ends with
  | own owned' => exact ⟨rfl, Option.some.inj (owned'.symm.trans owned)⟩
  | step foreign taken rest =>
    rw [foreign] at owned
    cases owned

/-! ## The search -/

/-- A search finds no member exactly where no chain that is short enough ends with one. -/
theorem memberWithin_eq_none_iff {name : String} : ∀ {fuel : Nat} {type : TypeName},
    scope.memberWithin fuel type.1 type.2 name = none ↔
      ∀ path member, path.length < fuel → ¬scope.Ends name type path (some member)
  | 0, type => ⟨fun _ _ _ short => absurd short (Nat.not_lt_zero _), fun _ => rfl⟩
  | fuel + 1, type => by
    rw [memberWithin_succ]
    cases owned : scope.ownAnswer? type name with
    | some answer =>
      constructor
      · rintro rfl path member - ends
        exact absurd (ends.eq_nil owned).2 (Option.some_ne_none _)
      · intro none
        cases answer with
        | none => rfl
        | some member => exact absurd (Ends.own owned) (none [] member (Nat.succ_pos _))
    | none =>
      simp only [List.findSome?_eq_none_iff]
      constructor
      · intro each path member short ends
        cases ends with
        | own owned' =>
          rw [owned] at owned'
          cases owned'
        | step _ taken rest =>
          have missed := each _ (List.mem_of_getElem? taken)
          exact memberWithin_eq_none_iff.mp missed _ member (Nat.lt_of_succ_lt_succ short) rest
      · intro none inner listed
        obtain ⟨place, taken⟩ := List.getElem?_of_mem listed
        refine memberWithin_eq_none_iff.mpr fun path member short ends => ?_
        exact none (place :: path) member (Nat.succ_lt_succ short) (.step owned taken ends)

/-- **A search finds the member at the end of the first chain that ends with one**, chains being
ordered like words, place by place, and those that are too long left out. -/
theorem memberWithin_eq_some_iff {name : String} {member : Member} :
    ∀ {fuel : Nat} {type : TypeName},
      scope.memberWithin fuel type.1 type.2 name = some member ↔
        ∃ path, path.length < fuel ∧ scope.Ends name type path (some member) ∧
          ∀ earlier other, earlier < path → earlier.length < fuel →
            ¬scope.Ends name type earlier (some other)
  | 0, type => by
    constructor
    · intro found
      cases found
    · rintro ⟨path, short, -⟩
      exact absurd short (Nat.not_lt_zero _)
  | fuel + 1, type => by
    rw [memberWithin_succ]
    cases owned : scope.ownAnswer? type name with
    | some answer =>
      constructor
      · rintro rfl
        exact ⟨[], Nat.succ_pos _, .own owned, fun _ _ before => absurd before (List.not_lt_nil _)⟩
      · rintro ⟨path, -, ends, -⟩
        exact (ends.eq_nil owned).2.symm
    | none =>
      simp only [List.findSome?_eq_some_iff]
      constructor
      · rintro ⟨front, inner, back, split, found, missed⟩
        obtain ⟨path, short, ends, first⟩ := memberWithin_eq_some_iff.mp found
        have taken : (scope.embeds type)[front.length]? = some inner := by
          rw [split]
          simp
        refine ⟨front.length :: path, Nat.succ_lt_succ short, .step owned taken ends, ?_⟩
        intro earlier other before bound ends'
        cases ends' with
        | own owned' =>
          rw [owned] at owned'
          cases owned'
        | @step _ inner' place path' _ _ taken' rest =>
          rcases List.cons_lt_cons_iff.mp before with less | ⟨rfl, less⟩
          · -- The embedded types in front of the one that is taken lead to no member.
            have listed : inner' ∈ front := by
              rw [split, List.getElem?_append_left less] at taken'
              exact List.mem_of_getElem? taken'
            have nothing := memberWithin_eq_none_iff.mp (missed inner' listed)
            exact nothing path' other (Nat.lt_of_succ_lt_succ bound) rest
          · cases taken.symm.trans taken'
            exact first path' other less (Nat.lt_of_succ_lt_succ bound) rest
      · rintro ⟨path, short, ends, first⟩
        cases ends with
        | own owned' =>
          rw [owned] at owned'
          cases owned'
        | @step _ inner place path _ _ taken rest =>
          obtain ⟨bound, here⟩ := List.getElem?_eq_some_iff.mp taken
          refine ⟨(scope.embeds type).take place, inner, (scope.embeds type).drop (place + 1), ?_,
            ?_, ?_⟩
          · rw [← here, List.getElem_cons_drop, List.take_append_drop]
          · refine memberWithin_eq_some_iff.mpr ⟨path, Nat.lt_of_succ_lt_succ short, rest, ?_⟩
            intro earlier other before short' ends'
            exact first (place :: earlier) other (List.cons_lt_cons_iff.mpr (Or.inr ⟨rfl, before⟩))
              (Nat.succ_lt_succ short') (.step owned taken ends')
          · intro inner' listed
            obtain ⟨place', taken'⟩ := List.getElem?_of_mem listed
            obtain ⟨below, -⟩ := List.getElem?_eq_some_iff.mp taken'
            have less : place' < place := Nat.lt_of_lt_of_le below (List.length_take_le _ _)
            rw [List.getElem?_take_of_lt less] at taken'
            refine memberWithin_eq_none_iff.mpr fun path' other short' ends' => ?_
            exact first (place' :: path') other (List.cons_lt_cons_iff.mpr (Or.inl less))
              (Nat.succ_lt_succ short') (.step owned taken' ends')

/-! ## Depth -/

/-- A rival of a chain: it ends sooner, and it branches off behind the chain or ends without an
answer. -/
def Rivals (scope : ModuleScope) (name : String) (type : TypeName) (path rival : List Nat) : Prop :=
  ∃ answer, scope.Ends name type rival answer ∧ rival.length < path.length ∧
    (path < rival ∨ answer = none)

/-- The first chain that ends with a member is a shortest chain to the name exactly if it has no
rival. -/
theorem shallowest_iff {name : String} {type : TypeName} {path : List Nat}
    (bounded : path.length < inferenceSteps)
    (first : ∀ earlier other, earlier < path → earlier.length < inferenceSteps →
      ¬scope.Ends name type earlier (some other)) :
    (∀ chain owner, scope.follow type chain = some owner → scope.Owns owner name →
        path.length ≤ chain.length) ↔
      ¬∃ rival, scope.Rivals name type path rival := by
  constructor
  · rintro shallowest ⟨rival, answer, ends, shorter, -⟩
    obtain ⟨owner, reached, owned⟩ := ends.owner
    have owns := isSome_ownAnswer?_iff.mp (Option.isSome_of_mem owned)
    have bound := shallowest rival owner reached owns
    omega
  · intro none chain owner reached owns
    by_contra deeper
    obtain ⟨front, answer, within, ends⟩ := exists_ends reached owns
    have shorter : front.length < path.length := by
      have bound := within.length_le
      omega
    refine none ⟨front, answer, ends, shorter, ?_⟩
    rcases lt_trichotomy front path with before | same | behind
    · -- In front of the first chain with an answer, chains have none.
      right
      cases answer with
      | none => rfl
      | some other => exact absurd ends (first front other before (by omega))
    · rw [same] at shorter
      exact absurd shorter (Nat.lt_irrefl _)
    · exact Or.inl behind

/-- **Which member is promoted.** The search returns the member at the end of the first chain of at
most eight embeddings that ends with one, no type in front of it having the name. That member is a
shallowest one exactly if the chain has no rival; one step is never too deep. -/
theorem member_ends_first_chain {package typeName name : String} {member : Member}
    (found : scope.member package typeName name = some member) :
    ∃ path, path.length ≤ 8 ∧ scope.Ends name (package, typeName) path (some member) ∧
      (∀ earlier other, earlier < path → earlier.length ≤ 8 →
        ¬scope.Ends name (package, typeName) earlier (some other)) ∧
      (∀ front, front <+: path → front ≠ path → ∀ passed,
        scope.follow (package, typeName) front = some passed → ¬scope.Owns passed name) ∧
      ((∀ chain owner, scope.follow (package, typeName) chain = some owner →
          scope.Owns owner name → path.length ≤ chain.length) ↔
        ¬∃ rival, scope.Rivals name (package, typeName) path rival) ∧
      (path.length ≤ 1 → ¬∃ rival, scope.Rivals name (package, typeName) path rival) := by
  have searched : scope.memberWithin inferenceSteps package typeName name = some member := found
  obtain ⟨path, short, ends, first⟩ :=
    (@memberWithin_eq_some_iff scope name member _ (package, typeName)).mp searched
  refine ⟨path, Nat.le_of_lt_succ short, ends, fun earlier other before bound =>
    first earlier other before (Nat.lt_succ_of_le bound), ends.foreign,
    shallowest_iff short first, ?_⟩
  rintro single ⟨rival, answer, ends', shorter, -⟩
  -- The rival would be the empty chain, and so the type itself would have the name.
  have bare : rival = [] := List.eq_nil_of_length_eq_zero (by omega)
  subst bare
  obtain ⟨owner, reached, owned⟩ := ends'.owner
  refine ends.foreign [] List.nil_prefix ?_ owner reached
    (isSome_ownAnswer?_iff.mp (Option.isSome_of_mem owned))
  rintro rfl
  exact absurd shorter (Nat.lt_irrefl _)

/-- A struct that embeds two others, the first of which embeds a third; the second and the third
have a field of the same name. -/
def deepBeforeShallow : List (String × String) :=
  [("a.go",
    "package p\n\ntype T struct \x7b\n\tA\n\tB\n\x7d\n\ntype A struct \x7b\n\tC\n\x7d\n\n" ++
    "type C struct \x7b\n\tX int\n\x7d\n\ntype B struct \x7b\n\tX int\n\x7d\n")]

/-- What the witness evaluates: the embedded types, the types that have the name, and the field that
is found. -/
def passesShallow (scope : ModuleScope) : Bool :=
  scope.embeds ("m", "T") == [("m", "A"), ("m", "B")] &&
    (scope.ownAnswer? ("m", "T") "X").isNone && (scope.ownAnswer? ("m", "A") "X").isNone &&
    (scope.ownAnswer? ("m", "B") "X").map (Option.map (·.nameSpan)) == some (some ⟨101, 102⟩)

/-- The field of the type that is embedded twice over is found, not that of the one that is embedded
directly. -/
theorem member_ends_first_chain_deepBeforeShallow :
    ∃ module member path owner, Module.ofSources "m" deepBeforeShallow = .ok module ∧
      (ofModule .full module).member "m" "T" "X" = some member ∧
      member.nameSpan = ⟨75, 76⟩ ∧
      (ofModule .full module).Ends "X" ("m", "T") path (some member) ∧ 2 ≤ path.length ∧
      (ofModule .full module).follow ("m", "T") [1] = some owner ∧
      (ofModule .full module).Owns owner "X" ∧
      ∃ rival, (ofModule .full module).Rivals "X" ("m", "T") path rival := by
  have evaluated : checkOk (Module.ofSources "m" deepBeforeShallow) (fun module =>
      passesShallow (ofModule .full module) &&
        ((ofModule .full module).member "m" "T" "X").map (·.nameSpan) == some ⟨75, 76⟩) =
      true := by
    decide +kernel
  obtain ⟨module, loaded, checked⟩ := exists_of_checkOk evaluated
  unfold passesShallow at checked
  simp only [Bool.and_eq_true, beq_iff_eq, Option.isNone_iff_eq_none] at checked
  obtain ⟨⟨⟨⟨embeds, top⟩, deep⟩, shallow⟩, spans⟩ := checked
  obtain ⟨member, found, span⟩ := Option.map_eq_some_iff.mp spans
  obtain ⟨answer, owned, answers⟩ := Option.map_eq_some_iff.mp shallow
  obtain ⟨path, -, ends, -, -, shallowest, -⟩ := member_ends_first_chain found
  have taken : (ofModule .full module).follow ("m", "T") [1] = some ("m", "B") := by
    rw [follow, embeds]
    rfl
  have owns := isSome_ownAnswer?_iff.mp (Option.isSome_of_mem owned)
  have deeper : 2 ≤ path.length := by
    match path, ends with
    | [], .own owned' =>
      rw [top] at owned'
      cases owned'
    | [place], .step _ taken' (.own owned') =>
      rw [embeds] at taken'
      match place, taken' with
      | 0, rfl =>
        rw [deep] at owned'
        cases owned'
      | 1, rfl =>
        rw [owned] at owned'
        cases owned'
        rw [Option.map_some, Option.some.injEq, span] at answers
        cases answers
    | _ :: _ :: _, _ => exact Nat.le_add_left 2 _
  refine ⟨module, member, path, ("m", "B"), loaded, found, span, ends, deeper, taken, owns, ?_⟩
  by_contra none
  have bound := shallowest.mpr none [1] _ taken owns
  rw [List.length_singleton] at bound
  omega

end ModuleScope

end GoRefactor
