import GoRefactor.Proofs.Json.Shape
import GoRefactor.Proofs.Snapshot.Syntax
import GoRefactor.Transform.Document

/-!
# Plans read back

A plan that is written as a document is read back as it was, with all the chains in it. Reading
bounds the nesting of chains by that of the document.
-/

namespace GoRefactor

namespace Transformation

mutual

/-- The counts in the options of all extractions fit into words. -/
def Words : Transformation → Prop
  | .rename _ => True
  | .extract options => options.minTypes < UInt64.size ∧ options.minMethods < UInt64.size
  | .chain steps => AllWords steps

/-- The counts in all steps fit into words. -/
def AllWords : List Transformation → Prop
  | [] => True
  | step :: rest => step.Words ∧ AllWords rest

end

end Transformation

namespace Document

open Json Snapshot

/-- The options of a rename are read back. -/
theorem renameOptions?_renameMembers (options : RenameOptions) :
    renameOptions? (.object (renameMembers options)) = some options := by
  obtain ⟨old, new, parentType, package, dryRun⟩ := options
  have among : ((renameMembers ⟨old, new, parentType, package, dryRun⟩).map Prod.fst).Sublist
      ["old", "new", "parent_type", "package", "dry_run"] := by
    simp only [renameMembers, List.map_append]
    exact (((List.Sublist.refl ["old", "new"]).append (names_present _ _ _)).append
      (names_present _ _ _)).append (List.Sublist.refl ["dry_run"])
  unfold renameOptions?
  refine (record?_bind among (by decide) _ _).trans ?_
  cases parentType <;> cases package <;>
    simp -implicitDefEqProofs [renameMembers, present, Record.required?, Record.withDefault?,
      nullable?]

/-- The options of an extraction are read back. -/
theorem extractionOptions?_extractionMembers {options : ExtractionOptions}
    (types : options.minTypes < UInt64.size) (methods : options.minMethods < UInt64.size) :
    extractionOptions? (.object (extractionMembers options)) = some options := by
  unfold extractionOptions? extractionMembers
  refine (record?_bind (by rfl) (by decide) _ _).trans ?_
  refine (Record.withDefault?_bind rfl (word?_nat types) _).trans ?_
  refine (Record.withDefault?_bind rfl (word?_nat methods) _).trans ?_
  refine (Record.withDefault?_bind rfl (list?_strings _) _).trans ?_
  refine (Record.withDefault?_bind rfl (list?_strings _) _).trans ?_
  refine (Record.withDefault?_bind rfl (list?_strings _) _).trans ?_
  refine (Record.withDefault?_bind rfl (bool?_bool _) _).trans ?_
  refine (Record.withDefault?_bind rfl (nullable?_text _) _).trans ?_
  refine (Record.withDefault?_bind rfl (nullable?_text _) _).trans ?_
  refine (Record.withDefault?_bind rfl (nullable?_text _) _).trans ?_
  refine (Record.withDefault?_bind rfl (bool?_bool _) _).trans ?_
  exact Record.withDefault?_bind rfl (bool?_bool _) _

/-- No member of the options of a rename has the name of the member that tells the plans apart. -/
theorem names_renameMembers (options : RenameOptions) :
    ∀ entry ∈ renameMembers options, entry.1 ≠ "transform" := by
  obtain ⟨old, new, parentType, package, dryRun⟩ := options
  cases parentType <;> cases package <;> simp [renameMembers, present]

/-- A plan is an object. -/
theorem depth_transformation_pos (plan : Transformation) : 0 < depth (transformation plan) := by
  cases plan <;> exact Nat.succ_pos _

mutual

/-- **A plan is read back**, with every bound on the nesting within it that it keeps to. -/
theorem transformationWith?_transformation : ∀ (plan : Transformation) {origin : Origin}
    {limit : Nat}, plan.Words → depth (transformation plan) ≤ limit + 1 →
      transformationWith? origin (stepWithin? limit) (transformation plan) = some plan
  | .rename options, origin, limit, _, _ => by
    refine (tagged?_bind (by decide) (names_renameMembers options) _).trans ?_
    simp only [renameOptions?_renameMembers]
    rfl
  | .extract options, origin, limit, ⟨types, methods⟩, _ => by
    refine (tagged?_bind (by decide) (by simp [extractionMembers]) _).trans ?_
    simp only [extractionOptions?_extractionMembers types methods]
    rfl
  | .chain steps, origin, limit, words, fits => by
    simp only [transformation, depth, depthOfMembers] at fits
    have steps := list?_transformations steps limit words (by omega)
    refine (tagged?_bind (by decide) (by simp) _).trans ?_
    simp -implicitDefEqProofs [record?_object, Record.required?, steps]

/-- The steps of a chain are read back. -/
theorem list?_transformations : ∀ (steps : List Transformation) (limit : Nat),
    Transformation.AllWords steps → depthOfItems (transformations steps) ≤ limit →
      list? (stepWithin? limit) (.array (transformations steps)) = some steps
  | [], _, _, _ => rfl
  | step :: rest, limit, ⟨words, words'⟩, fits => by
    simp only [transformations, depthOfItems] at fits
    have head : stepWithin? limit (transformation step) = some step := by
      cases limit with
      | zero => exact absurd (depth_transformation_pos step) (by omega)
      | succ limit => exact transformationWith?_transformation step words (by omega)
    exact list?_cons head (list?_transformations rest limit words' (by omega))

end

mutual

/-- The document of a transformation has no unreadable part. -/
theorem isReadable_transformation :
    ∀ plan : Transformation, (transformation plan).isReadable = true
  | .rename ⟨_, _, parentType, package, _⟩ => by
    cases parentType <;> cases package <;> rfl
  | .extract options => by
    have texts (value : Option String) : (nullable .string value).isReadable = true :=
      isReadable_nullable (fun _ => rfl) value
    have lists (values : List String) : (strings values).isReadable = true :=
      areReadable_map fun _ _ => rfl
    simp [transformation, extractionMembers, isReadable, haveReadable, texts, lists, nat]
  | .chain steps => by
    simp [transformation, isReadable, haveReadable, areReadable_transformations steps]

/-- The steps of a chain are readable. -/
theorem areReadable_transformations :
    ∀ steps : List Transformation, areReadable (transformations steps) = true
  | [] => rfl
  | step :: rest => by
    rw [transformations, areReadable, isReadable_transformation step,
      areReadable_transformations rest]
    rfl

end

/-- **A plan is read back from its document.** -/
theorem transformation?_transformation {plan : Transformation} (words : plan.Words) :
    transformation? (transformation plan) = some plan := by
  rw [transformation?, whole?, if_pos (isReadable_transformation plan)]
  exact transformationWith?_transformation plan words (Nat.le_succ _)

end Document

end GoRefactor
