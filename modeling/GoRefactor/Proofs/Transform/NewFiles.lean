import GoRefactor.Proofs.Go.Token.Split
import GoRefactor.Proofs.Module.Addressed
import GoRefactor.Proofs.Module.Relative
import GoRefactor.Proofs.Module.Sources
import GoRefactor.Proofs.Symbol.Build
import GoRefactor.Proofs.Transform.Runs
import GoRefactor.Proofs.Transform.SharedSuffix

/-!
# Files for interfaces

An interface goes to a file that the module has, or to a new one that is named after it. As long as
interfaces have names that can be declared, a new file stands inside the module: its name is made of
the characters of the interface's, in lower case, and its directory is that of a package. What
lower-casing puts in place of a letter lies behind the ASCII upper-case letters, so a character in
front of them, such as a separator of paths, stands in a lower-cased name only where it stood
before.
-/

namespace GoRefactor

/-! ## Lower-casing brings in letters only -/

namespace Case

/-- Characters up to the ASCII upper-case letters, null apart. Lower-casing brings in none of
them. -/
def IsKept (c : Char) : Prop := 0 < c.toNat ∧ c.toNat ≤ 92

/-- Whether a character is one of them can be evaluated. -/
instance (c : Char) : Decidable (IsKept c) := inferInstanceAs (Decidable (_ ∧ _))

/-- Lower-case forms past the ASCII block lie behind the ASCII upper-case letters. -/
theorem behind_of_mem_lowerMoves :
    ∀ move ∈ lowerMoves, (92 : Int) < move.letters.first + move.distance := by
  decide +kernel

/-- Lower-casing an ASCII character brings in no such character. -/
theorem eq_of_toLower {c d : Char} (same : c.toLower = d) (kept : IsKept d) : d = c := by
  unfold Char.toLower at same
  split at same
  · rename_i upper
    have start : 65 ≤ c.val.toNat := UInt32.le_iff_toNat_le.mp upper.1
    have stop : c.val.toNat ≤ 90 := UInt32.le_iff_toNat_le.mp upper.2
    have moved : d.toNat = (c.val + 32).toNat := congrArg Char.toNat same.symm
    have distance : (32 : UInt32).toNat = 32 := by decide
    rw [UInt32.toNat_add, distance] at moved
    have low := kept.2
    omega
  · exact same.symm

/-- Lower-casing a character brings in no such character. -/
theorem eq_of_mem_lowerChar {c d : Char} (member : d ∈ lowerChar c) (kept : IsKept d) :
    d = c := by
  unfold lowerChar at member
  split at member
  · exact eq_of_toLower (List.mem_singleton.mp member).symm kept
  · split at member
    · rcases List.mem_cons.mp member with rfl | later
      · exact absurd kept (by decide)
      · cases List.mem_singleton.mp later
        exact absurd kept (by decide)
    · split at member
      · rename_i move found
        have behind := behind_of_mem_lowerMoves move (Array.mem_of_find?_eq_some found)
        have inside := Array.find?_some found
        simp only [Letter.Stretch.contains, Bool.and_eq_true, decide_eq_true_eq] at inside
        have image := List.mem_singleton.mp member
        obtain ⟨filled, low⟩ := kept
        -- Null stands for what is no character.
        by_cases valid : (c.toNat + move.distance).toNat.isValidChar
        · have moved : d.toNat = (c.toNat + move.distance).toNat := by
            rw [image, Char.ofNat, dif_pos valid]
            rfl
          omega
        · rw [image, Char.ofNat, dif_neg valid] at filled
          exact absurd filled (Nat.lt_irrefl 0)
      · exact List.mem_singleton.mp member

/-- Lower-casing a text brings in no such character. -/
theorem mem_of_mem_lowerFrom {d : Char} (kept : IsKept d) {before cs : List Char}
    (member : d ∈ lowerFrom before cs) : d ∈ cs := by
  induction cs generalizing before with
  | nil => exact member
  | cons c cs ih =>
    rw [lowerFrom] at member
    rcases List.mem_append.mp member with here | later
    · have final : ¬IsKept 'ς' := by decide
      have inner : ¬IsKept 'σ' := by decide
      split at here
      · split at here
        · exact absurd kept (List.mem_singleton.mp here ▸ final)
        · exact absurd kept (List.mem_singleton.mp here ▸ inner)
      · exact eq_of_mem_lowerChar here kept ▸ List.mem_cons_self
    · exact List.mem_cons_of_mem _ (ih later)

end Case

/-- A lower-cased text holds such characters only where the text does. -/
theorem mem_of_mem_lowerText {d : Char} (kept : Case.IsKept d) {text : String}
    (member : d ∈ (lowerText text).toList) : d ∈ text.toList := by
  rw [lowerText, String.toList_ofList] at member
  exact Case.mem_of_mem_lowerFrom kept member

/-! ## Names of new files -/

namespace Naming

/-- Texts put together with a text between them hold what that text holds, or one of them. -/
theorem mem_of_mem_intercalate {c : Char} {between : List Char} {pieces : List (List Char)}
    (member : c ∈ between.intercalate pieces) : c ∈ between ∨ ∃ piece ∈ pieces, c ∈ piece := by
  induction pieces with
  | nil => simp at member
  | cons head rest ih =>
    cases rest with
    | nil => exact Or.inr ⟨head, List.mem_cons_self, by simpa using member⟩
    | cons next others =>
      rw [List.intercalate_cons_cons, List.append_assoc] at member
      rcases List.mem_append.mp member with first | further
      · exact Or.inr ⟨head, List.mem_cons_self, first⟩
      · rcases List.mem_append.mp further with here | later
        · exact Or.inl here
        · exact (ih later).imp_right fun ⟨piece, held, inside⟩ =>
            ⟨piece, List.mem_cons_of_mem _ held, inside⟩

/-- A name in lower case with underscores holds a separator of paths only where the name does. -/
theorem mem_of_mem_snakeCase {c : Char} (kept : Case.IsKept c) {name : String}
    (member : c ∈ (snakeCase name).toList) : c ∈ name.toList := by
  unfold snakeCase at member
  rw [String.toList_intercalate] at member
  rcases mem_of_mem_intercalate member with underscore | ⟨piece, held, inside⟩
  · have same : c = '_' := by simpa using underscore
    subst same
    exact absurd kept (by decide)
  · obtain ⟨text, lowered, rfl⟩ := List.mem_map.mp held
    obtain ⟨word, among, rfl⟩ := List.mem_map.mp lowered
    have original := mem_of_mem_lowerText kept inside
    rw [String.toList_ofList] at original
    exact mem_of_mem_camelWords among original

/-- A file named after what can be declared has a plain name. -/
theorem isPlainName_snakeCase {name : String} (valid : nameFlaw? name = none) :
    IsPlainName (snakeCase name ++ sourceSuffix) := by
  have named : ∀ c ∈ name.toList, isNameChar c = true := by
    have word := (Lexeme.isWord_of_name valid).1
    cases chars : name.toList with
    | nil =>
      rw [chars] at word
      exact word.elim
    | cons c cs =>
      rw [chars] at word
      exact List.forall_mem_cons.mpr ⟨Lexeme.isNameChar_of_startsName _ word.1, word.2⟩
  have size : 3 ≤ (snakeCase name ++ sourceSuffix).toList.length := by
    rw [String.toList_append, List.length_append]
    exact Nat.le_add_left _ _
  have long {text : String} (short : text.toList.length < 3) :
      snakeCase name ++ sourceSuffix ≠ text := by
    rintro rfl
    omega
  refine ⟨⟨long (by decide), long (by decide), long (by decide)⟩, fun c member => ?_⟩
  have away {separator : Char} (kept : Case.IsKept separator)
      (foreign : isNameChar separator = false) (apart : separator ∉ sourceSuffix.toList) :
      c ≠ separator := by
    rintro rfl
    rw [String.toList_append] at member
    rcases List.mem_append.mp member with inside | last
    · have proper := named c (mem_of_mem_snakeCase kept inside)
      rw [foreign] at proper
      cases proper
    · exact apart last
  exact ⟨away (by decide) (by decide) (by decide), away (by decide) (by decide) (by decide),
    away (by decide) (by decide) (by decide)⟩

end Naming

/-- The structs of method sets are declared in files of the module. -/
theorem hasFile_of_discover {module : Module} {index : Index} {options : IndexOptions}
    (built : (module.index options).run = .ok (.ok index)) {choice : ExtractionOptions}
    {patterns : List MethodPattern} (found : discover index choice = .ok patterns) :
    ∀ pattern ∈ patterns, ∀ struct ∈ pattern.implementers, module.HasFile struct.file := by
  obtain ⟨-, drawn, -⟩ := Module.index_spec built
  obtain ⟨filed, -, -, addressed⟩ := Module.symbols_spec drawn
  have structs : ∀ symbol ∈ index.symbols.ofKind .struct, module.HasFile symbol.file := by
    intro symbol member
    rw [filed] at member
    change symbol ∈ Postings.lookup (.ofList _ _) _ at member
    rw [Postings.lookup_ofList] at member
    obtain ⟨file, held, -, here, -⟩ := addressed symbol (List.mem_filter.mp member).1
    exact ⟨file, held, here.symm⟩
  unfold discover at found
  obtain ⟨excludes, -, found⟩ := bind_eq_ok.mp found
  cases found
  -- Structs are added to the patterns one by one.
  have folded (symbols : List Symbol) (among : ∀ symbol ∈ symbols, module.HasFile symbol.file)
      (known : NameMap MethodPattern)
      (former : ∀ pattern ∈ known.values, ∀ struct ∈ pattern.implementers,
        module.HasFile struct.file) :
      ∀ pattern ∈ (symbols.foldl (addImplementer index excludes) known).values,
        ∀ struct ∈ pattern.implementers, module.HasFile struct.file := by
    induction symbols generalizing known with
    | nil => exact former
    | cons symbol rest ih =>
      obtain ⟨here, others⟩ := List.forall_mem_cons.mp among
      refine ih others _ ?_
      unfold addImplementer
      split
      · exact former
      · split
        · exact former
        · intro pattern member
          rcases NameMap.mem_values_insert member with rfl | old
          · refine List.forall_mem_append.mpr ⟨fun struct held => ?_, ?_⟩
            · cases met : known.get? (methodKey _) with
              | none =>
                rw [met] at held
                cases held
              | some earlier =>
                rw [met] at held
                exact former earlier (NameMap.mem_values_of_get? met) struct held
            · exact List.forall_mem_singleton.mpr here
          · exact former pattern old
  intro pattern member
  exact folded _ structs ∅ (fun _ none => nomatch none) pattern (List.mem_filter.mp member).1

namespace ExtractionOptions

variable {options : ExtractionOptions} {naming : MethodPattern → String} {module : Module}

/-- A file that interfaces are to go to is one of the module. -/
theorem hasFile_of_target {target : ExtractionTarget}
    (aimed : (options.target module).run = .ok (.ok target)) :
    ∀ path ∈ target.file, module.HasFile path := by
  unfold ExtractionOptions.target at aimed
  obtain ⟨package, -, aimed⟩ := Attempt.run_bind_eq_ok.mp aimed
  split at aimed
  · cases aimed
    exact fun _ none => nomatch none
  · split at aimed
    · cases aimed
    · rename_i owner found
      split at aimed
      · cases aimed
        rintro _ ⟨⟩
        have owns := List.find?_some found
        obtain ⟨file, held, here⟩ := List.any_eq_true.mp owns
        exact ⟨file, List.mem_flatMap.mpr ⟨owner, List.mem_of_find?_eq_some found, held⟩,
          eq_of_beq here⟩
      · cases aimed

/-- The file that an interface goes to stands inside the module. -/
theorem relative_of_targetPath
    (relative : ∀ path, module.HasFile path → isModuleRelative path = true)
    {target : ExtractionTarget} (asked : ∀ path ∈ target.file, module.HasFile path)
    {key : String} {package : Package} (held : module.package? key = some package)
    {first : Implementer} (declared : module.HasFile first.file) {name path : String}
    (valid : nameFlaw? name = none)
    (aimed : options.targetPath target package first name = .ok path) :
    isModuleRelative path = true := by
  have listed : package ∈ module.packageList := NameMap.mem_values_of_get? held
  have owned {file : SourceFile} (member : file ∈ package.files) : module.HasFile file.path :=
    ⟨file, List.mem_flatMap.mpr ⟨package, listed, member⟩, rfl⟩
  have plain := Naming.isPlainName_snakeCase valid
  unfold targetPath at aimed
  split at aimed
  · rename_i path' given
    cases aimed
    exact relative path (asked path given)
  · split at aimed
    · cases aimed
      split
      · exact plain.isModuleRelative
      · rename_i filled
        refine plain.below ?_
        unfold Package.directory at filled ⊢
        cases files : package.files.head? with
        | none =>
          rw [files] at filled
          exact absurd rfl filled
        | some file =>
          rw [files] at filled
          refine isModuleRelative_directoryOf (relative _ (owned (List.mem_of_head? files))) ?_
          simpa using filled
    · split at aimed
      · cases aimed
        exact relative _ declared
      · split at aimed
        · rename_i file found
          cases aimed
          exact relative _ (owned (List.mem_of_find?_eq_some found))
        · cases aimed

/-- A name that is asked for can be declared. -/
theorem nameFlaw?_of_validate (checked : options.validate = .ok ()) :
    ∀ name, options.interfaceName = some name → nameFlaw? name = none := by
  intro name asked
  unfold validate at checked
  simp only at checked
  split at checked
  · cases checked
  · split at checked
    · cases checked
    · split at checked
      · cases checked
      · rename_i flawless
        rw [asked, Option.bind_some, Option.map_eq_none_iff] at flawless
        exact flawless

/-- **Interfaces are planned for files inside the module**, as long as their names can be
declared. -/
theorem relative_of_plan (relative : ∀ path, module.HasFile path → isModuleRelative path = true)
    (named : ∀ pattern, nameFlaw? (naming pattern) = none) {plan : ExtractionPlan}
    (planned : (options.plan naming module).run = .ok (.ok plan)) :
    ∀ interface ∈ plan.interfaces, isModuleRelative interface.change.file = true := by
  obtain ⟨checked, target, index, patterns, state, aimed, built, found, folded, rfl⟩ :=
    plan_eq_ok.mp planned
  have valid (pattern : MethodPattern) :
      nameFlaw? (options.interfaceName.getD (naming pattern)) = none := by
    cases asked : options.interfaceName with
    | none => exact named pattern
    | some name => exact nameFlaw?_of_validate checked name asked
  have declared := hasFile_of_discover built found
  have kept := foldlM_keeps_of_mem (fun state : Extraction => ∀ interface ∈ state.interfaces,
    isModuleRelative interface.change.file = true) patterns {} state ?_
    (fun _ none => nomatch none) folded
  · exact fun interface member => kept interface (List.mem_reverse.mp member)
  · intro state pattern member next holds stepped
    rcases planPattern_cases stepped with
      ⟨-, warnings, rfl⟩ | ⟨first, package, path, implemented, held, -, -, placed, rfl⟩
    · exact holds
    · refine List.forall_mem_cons.mpr ⟨?_, holds⟩
      rw [file_placed]
      exact relative_of_targetPath relative (hasFile_of_target aimed) held
        (declared pattern member first (List.mem_of_head? implemented)) (valid pattern) placed

end ExtractionOptions

end GoRefactor
