import GoRefactor.Proofs.Edit.Visited

/-!
# What a file keeps of its declarations

Types, functions, variables and constants are kept under their names, so of those with one name in a
file only the last is kept: the others give way to it. Methods, imports and blank values are all
kept.
-/

namespace GoRefactor

namespace SourceFile

/-- The file keeps the declaration. -/
def Holds (file : SourceFile) : TopDecl → Prop
  | .importing decl => decl ∈ file.imports
  | .type decl => decl ∈ file.types.values
  | .function decl => if decl.isMethod then decl ∈ file.methods else decl ∈ file.functions.values
  | .var decl => if decl.name = "_" then decl ∈ file.blanks else decl ∈ file.vars.values
  | .const decl => if decl.name = "_" then decl ∈ file.blanks else decl ∈ file.consts.values

end SourceFile

/-- Under the name of the first declaration the second one is kept. -/
def TopDecl.GivesWay : TopDecl → TopDecl → Prop
  | .type decl, .type later => later.name = decl.name
  | .function decl, .function later =>
    decl.isMethod = false ∧ later.isMethod = false ∧ later.name = decl.name
  | .var decl, .var later => decl.name ≠ "_" ∧ later.name = decl.name
  | .const decl, .const later => decl.name ≠ "_" ∧ later.name = decl.name
  | _, _ => False

instance (decl later : TopDecl) : Decidable (decl.GivesWay later) :=
  match decl, later with
  | .type _, .type _ => inferInstanceAs (Decidable (_ = _))
  | .function _, .function _ => inferInstanceAs (Decidable (_ ∧ _ ∧ _))
  | .var _, .var _ | .const _, .const _ => inferInstanceAs (Decidable (_ ∧ _))
  | .importing _, _ | .type _, .importing _ | .type _, .function _ | .type _, .var _
  | .type _, .const _ | .function _, .importing _ | .function _, .type _ | .function _, .var _
  | .function _, .const _ | .var _, .importing _ | .var _, .type _ | .var _, .function _
  | .var _, .const _ | .const _, .importing _ | .const _, .type _ | .const _, .function _
  | .const _, .var _ => isFalse id

/-- What is put under a name is kept, in place of what was there. -/
theorem NameMap.mem_values_insert_iff {α : Type} {map : NameMap α} {name : α → String}
    (keyed : map.Keyed name) {value other : α} :
    other ∈ (map.insert (name value) value).values ↔
      other = value ∨ other ∈ map.values ∧ name other ≠ name value := by
  constructor
  · intro member
    obtain ⟨entry, held, rfl⟩ := List.mem_map.mp member
    rcases mem_insert_iff.mp held with rfl | ⟨former, apart⟩
    · exact Or.inl rfl
    · exact Or.inr ⟨List.mem_map_of_mem former, keyed entry former ▸ apart⟩
  · rintro (rfl | ⟨member, apart⟩)
    · exact List.mem_map_of_mem (mem_insert_iff.mpr (Or.inl rfl))
    · obtain ⟨entry, former, rfl⟩ := List.mem_map.mp member
      exact List.mem_map_of_mem (mem_insert_iff.mpr
        (Or.inr ⟨former, (keyed entry former).symm ▸ apart⟩))

namespace SourceFile

variable {file : SourceFile}

/-- After an addition the types are those that do not give way, and the one that is added. -/
theorem mem_types_add (keyed : file.Keyed) {decl : TypeDecl} {added : TopDecl} :
    decl ∈ (file.add added).types.values ↔
      .type decl = added ∨ decl ∈ file.types.values ∧ ¬(TopDecl.type decl).GivesWay added := by
  cases added with
  | type other =>
    refine (NameMap.mem_values_insert_iff keyed.types).trans ?_
    simp only [TopDecl.type.injEq, TopDecl.GivesWay, ne_eq, eq_comm]
  | importing => simp [add, TopDecl.GivesWay]
  | function | var | const =>
    rw [add]
    split <;> simp [TopDecl.GivesWay]

/-- After an addition the functions are those that do not give way, and the one that is added. -/
theorem mem_functions_add (keyed : file.Keyed) {decl : FuncDecl} (plain : decl.isMethod = false)
    {added : TopDecl} : decl ∈ (file.add added).functions.values ↔ .function decl = added ∨
      decl ∈ file.functions.values ∧ ¬(TopDecl.function decl).GivesWay added := by
  cases added with
  | function other =>
    rw [add]
    split
    · rename_i method
      have apart : decl ≠ other := fun same => by
        rw [← same, plain] at method
        cases method
      simp [TopDecl.GivesWay, method, apart]
    · rename_i plain'
      refine (NameMap.mem_values_insert_iff keyed.functions).trans ?_
      simp only [TopDecl.function.injEq, TopDecl.GivesWay, plain, plain', true_and, ne_eq, eq_comm]
  | importing | type => simp [add, TopDecl.GivesWay]
  | var | const =>
    rw [add]
    split <;> simp [TopDecl.GivesWay]

/-- After an addition the variables are those that do not give way, and the one that is added. -/
theorem mem_vars_add (keyed : file.Keyed) {decl : ValueDecl} (named : decl.name ≠ "_")
    {added : TopDecl} : decl ∈ (file.add added).vars.values ↔ .var decl = added ∨
      decl ∈ file.vars.values ∧ ¬(TopDecl.var decl).GivesWay added := by
  cases added with
  | var other =>
    rw [add]
    split
    · rename_i blank
      have blank := eq_of_beq blank
      have apart : decl ≠ other := fun same => named (same ▸ blank)
      simp [TopDecl.GivesWay, blank, apart, Ne.symm named]
    · refine (NameMap.mem_values_insert_iff keyed.vars).trans ?_
      simp only [TopDecl.var.injEq, TopDecl.GivesWay, named, not_false_iff, true_and, ne_eq,
        eq_comm]
  | importing | type => simp [add, TopDecl.GivesWay]
  | function | const =>
    rw [add]
    split <;> simp [TopDecl.GivesWay]

/-- After an addition the constants are those that do not give way, and the one that is added. -/
theorem mem_consts_add (keyed : file.Keyed) {decl : ValueDecl} (named : decl.name ≠ "_")
    {added : TopDecl} : decl ∈ (file.add added).consts.values ↔ .const decl = added ∨
      decl ∈ file.consts.values ∧ ¬(TopDecl.const decl).GivesWay added := by
  cases added with
  | const other =>
    rw [add]
    split
    · rename_i blank
      have blank := eq_of_beq blank
      have apart : decl ≠ other := fun same => named (same ▸ blank)
      simp [TopDecl.GivesWay, blank, apart, Ne.symm named]
    · refine (NameMap.mem_values_insert_iff keyed.consts).trans ?_
      simp only [TopDecl.const.injEq, TopDecl.GivesWay, named, not_false_iff, true_and, ne_eq,
        eq_comm]
  | importing | type => simp [add, TopDecl.GivesWay]
  | function | var =>
    rw [add]
    split <;> simp [TopDecl.GivesWay]

/-- Methods, imports and blank values are never given up. -/
theorem subset_add (file : SourceFile) (added : TopDecl) :
    file.imports ⊆ (file.add added).imports ∧ file.methods ⊆ (file.add added).methods ∧
      file.blanks ⊆ (file.add added).blanks := by
  cases added with
  | importing => exact ⟨List.subset_append_left _ _, List.Subset.refl _, List.Subset.refl _⟩
  | type => exact ⟨List.Subset.refl _, List.Subset.refl _, List.Subset.refl _⟩
  | function =>
    rw [add]
    split
    · exact ⟨List.Subset.refl _, List.subset_append_left _ _, List.Subset.refl _⟩
    · exact ⟨List.Subset.refl _, List.Subset.refl _, List.Subset.refl _⟩
  | var | const =>
    rw [add]
    split
    · exact ⟨List.Subset.refl _, List.Subset.refl _, List.subset_append_left _ _⟩
    · exact ⟨List.Subset.refl _, List.Subset.refl _, List.Subset.refl _⟩

/-- What is added is kept. -/
theorem holds_add (file : SourceFile) (decl : TopDecl) : (file.add decl).Holds decl := by
  have inserted {α : Type} (map : NameMap α) (name : String) (value : α) :
      value ∈ (map.insert name value).values :=
    List.mem_map_of_mem (NameMap.mem_insert_iff.mpr (Or.inl rfl))
  cases decl with
  | importing decl => exact List.mem_append_right _ List.mem_cons_self
  | type decl => exact inserted _ _ _
  | function decl =>
    rw [add, Holds]
    split
    · exact List.mem_append_right _ List.mem_cons_self
    · exact inserted _ _ _
  | var decl | const decl =>
    rw [add, Holds]
    by_cases blank : decl.name = "_"
    · rw [if_pos blank, if_pos (beq_iff_eq.mpr blank)]
      exact List.mem_append_right _ List.mem_cons_self
    · rw [if_neg blank, if_neg fun same => blank (beq_iff_eq.mp same)]
      exact inserted _ _ _

/-- **One addition**: a declaration that can give way is the one that was added, or it was kept and
did not. -/
theorem holds_add_iff (keyed : file.Keyed) {decl added : TopDecl}
    (yields : ∃ later, decl.GivesWay later) :
    (file.add added).Holds decl ↔ decl = added ∨ file.Holds decl ∧ ¬decl.GivesWay added := by
  obtain ⟨later, way⟩ := yields
  cases decl with
  | importing => cases later <;> cases way
  | type decl => exact mem_types_add keyed
  | function decl =>
    have plain : decl.isMethod = false := by
      cases later with
      | function => exact way.1
      | _ => cases way
    simp only [Holds, plain, Bool.false_eq_true, if_false]
    exact mem_functions_add keyed plain
  | var decl =>
    have named : decl.name ≠ "_" := by
      cases later with
      | var => exact way.1
      | _ => cases way
    simp only [Holds, if_neg named]
    exact mem_vars_add keyed named
  | const decl =>
    have named : decl.name ≠ "_" := by
      cases later with
      | const => exact way.1
      | _ => cases way
    simp only [Holds, if_neg named]
    exact mem_consts_add keyed named

/-- A declaration stays unless it gives way. -/
theorem Holds.add (keyed : file.Keyed) {decl added : TopDecl} (holds : file.Holds decl)
    (stays : ¬decl.GivesWay added) : (file.add added).Holds decl := by
  by_cases yields : ∃ later, decl.GivesWay later
  · exact (holds_add_iff keyed yields).mpr (Or.inr ⟨holds, stays⟩)
  · obtain ⟨imports, methods, blanks⟩ := subset_add file added
    cases decl with
    | importing => exact imports holds
    | type decl => exact absurd ⟨.type decl, rfl⟩ yields
    | function decl =>
      rw [Holds] at holds ⊢
      split
      · rename_i method
        rw [if_pos method] at holds
        exact methods holds
      · rename_i plain
        have plain : decl.isMethod = false := Bool.eq_false_iff.mpr plain
        exact absurd ⟨.function decl, plain, plain, rfl⟩ yields
    | var decl =>
      rw [Holds] at holds ⊢
      split
      · rename_i blank
        rw [if_pos blank] at holds
        exact blanks holds
      · rename_i named
        exact absurd ⟨.var decl, named, rfl⟩ yields
    | const decl =>
      rw [Holds] at holds ⊢
      split
      · rename_i blank
        rw [if_pos blank] at holds
        exact blanks holds
      · rename_i named
        exact absurd ⟨.const decl, named, rfl⟩ yields

/-- **A declaration is kept** unless it gives way to one behind it. -/
theorem holds_foldl_add (keyed : file.Keyed) (front : List TopDecl) {decl : TopDecl}
    {back : List TopDecl} (stays : ∀ later ∈ back, ¬decl.GivesWay later) :
    ((front ++ decl :: back).foldl SourceFile.add file).Holds decl := by
  have kept (file : SourceFile) (keyed : file.Keyed) (holds : file.Holds decl) :
      (back.foldl SourceFile.add file).Holds decl := by
    induction back generalizing file with
    | nil => exact holds
    | cons added rest ih =>
      obtain ⟨first, others⟩ := List.forall_mem_cons.mp stays
      exact ih others _ (keyed.add added) (holds.add keyed first)
  rw [List.foldl_append, List.foldl_cons]
  exact kept _ ((keyed.foldl_add front).add decl) (holds_add _ decl)

/-- **A declaration that gives way is lost.** -/
theorem not_holds_foldl_add (keyed : file.Keyed) (front : List TopDecl) {decl later : TopDecl}
    {back : List TopDecl} (behind : later ∈ back) (way : decl.GivesWay later)
    (absent : decl ∉ back) : ¬((front ++ decl :: back).foldl SourceFile.add file).Holds decl := by
  have still (file : SourceFile) (keyed : file.Keyed) (rest : List TopDecl) (absent : decl ∉ rest)
      (lost : ¬file.Holds decl) : ¬(rest.foldl SourceFile.add file).Holds decl := by
    induction rest generalizing file with
    | nil => exact lost
    | cons added rest ih =>
      obtain ⟨apart, absent⟩ := not_or.mp (mt List.mem_cons.mpr absent)
      refine ih _ (keyed.add added) absent fun holds => ?_
      rcases (holds_add_iff keyed ⟨later, way⟩).mp holds with same | ⟨former, -⟩
      · exact apart same
      · exact lost former
  obtain ⟨between, rest, rfl⟩ := List.append_of_mem behind
  have keyed' := ((keyed.foldl_add front).add decl).foldl_add between
  rw [List.foldl_append, List.foldl_cons, List.foldl_append, List.foldl_cons]
  refine still _ (keyed'.add later) rest (fun member => absent (List.mem_append_right _
    (List.mem_cons_of_mem _ member))) fun holds => ?_
  rcases (holds_add_iff keyed' ⟨later, way⟩).mp holds with same | ⟨-, stays⟩
  · exact absent (List.mem_append_right _ (same ▸ List.mem_cons_self))
  · exact stays way

end SourceFile

end GoRefactor
