import GoRefactor.Module.Basic
import GoRefactor.Proofs.Text.Split
import GoRefactor.Transform.Naming

/-!
# Paths inside a module

A path that is relative to a module is made of plain segments. Its directory is one too, and so is a
file below it that is named in plain characters.
-/

namespace GoRefactor

/-- A segment that is the name of an entry, and not a step to where one is or up. -/
def IsPlainSegment (segment : String) : Prop := segment ≠ "" ∧ segment ≠ "." ∧ segment ≠ ".."

/-- A path is relative to a module exactly if it is filled and all its segments are plain. -/
theorem isModuleRelative_iff {path : String} : isModuleRelative path = true ↔
    path ≠ "" ∧ (∀ c ∈ path.toList, c ≠ '\\' ∧ c ≠ ':') ∧
      ∀ segment ∈ splitText '/' path, IsPlainSegment segment := by
  unfold isModuleRelative IsPlainSegment
  simp [and_assoc]

/-- The segments of a path that is relative to a module are plain. -/
theorem plain_of_isModuleRelative {path : String} (relative : isModuleRelative path = true) :
    ∀ segment ∈ splitText '/' path, IsPlainSegment segment :=
  (isModuleRelative_iff.mp relative).2.2

/-- A name that can stand in any path: plain, and made of characters that mean nothing in paths. -/
structure IsPlainName (name : String) : Prop where
  segment : IsPlainSegment name
  clean : ∀ c ∈ name.toList, c ≠ '/' ∧ c ≠ '\\' ∧ c ≠ ':'

/-- A text without the separator is one piece. -/
theorem splitText_of_not_mem {separator : Char} {text : String}
    (clean : separator ∉ text.toList) : splitText separator text = [text] := by
  have alone (cs : List Char) (clean : separator ∉ cs) : splitChars separator cs = [cs] := by
    induction cs with
    | nil => rfl
    | cons c cs ih =>
      obtain ⟨apart, others⟩ := List.ne_and_not_mem_of_not_mem_cons clean
      have other : (c == separator) = false := beq_eq_false_iff_ne.mpr (Ne.symm apart)
      rw [splitChars, other, ih others]
      rfl
  rw [splitText, alone _ clean, List.map_singleton, String.ofList_toList]

/-- A plain name is relative to the module, at its root. -/
theorem IsPlainName.isModuleRelative {name : String} (plain : IsPlainName name) :
    isModuleRelative name = true := by
  have whole := splitText_of_not_mem fun slash => (plain.clean '/' slash).1 rfl
  refine isModuleRelative_iff.mpr ⟨plain.segment.1, fun c member => (plain.clean c member).2, ?_⟩
  rw [whole]
  exact List.forall_mem_singleton.mpr plain.segment

/-- A file with a plain name below a directory inside the module is inside it. -/
theorem IsPlainName.below {directory name : String} (plain : IsPlainName name)
    (relative : GoRefactor.isModuleRelative directory = true) :
    GoRefactor.isModuleRelative (directory ++ "/" ++ name) = true := by
  obtain ⟨-, clean, segments⟩ := isModuleRelative_iff.mp relative
  have whole := splitText_of_not_mem fun slash => (plain.clean '/' slash).1 rfl
  refine isModuleRelative_iff.mpr ⟨fun empty => ?_, fun c member => ?_, fun segment member => ?_⟩
  · have chars := congrArg String.toList empty
    simp at chars
  · simp only [String.toList_append, List.mem_append] at member
    rcases member with (inside | slash) | last
    · exact clean c inside
    · have same : c = '/' := by simpa using slash
      subst same
      exact ⟨by decide, by decide⟩
    · exact (plain.clean c last).2
  · rw [splitText_append (by decide), whole] at member
    rcases List.mem_append.mp member with inside | last
    · exact segments segment inside
    · exact List.mem_singleton.mp last ▸ plain.segment

/-- What is split at the last separator is in front of it and behind it. -/
theorem eq_of_splitLast? {text front back : String}
    (split : splitLast? '/' text = some (front, back)) : text = front ++ "/" ++ back := by
  unfold splitLast? at split
  have halves := List.takeWhile_append_dropWhile (p := (· != '/')) (l := text.toList.reverse)
  cases dropped : text.toList.reverse.dropWhile (· != '/') with
  | nil =>
    simp only [dropped] at split
    cases split
  | cons c before =>
    have slash : c = '/' := by
      have stops := List.head?_dropWhile_not (· != '/') text.toList.reverse
      rw [dropped] at stops
      simpa using stops
    simp only [dropped] at split
    obtain ⟨rfl, rfl⟩ := Prod.mk.inj (Option.some.inj split)
    rw [dropped, slash] at halves
    have whole := congrArg List.reverse halves
    rw [List.reverse_reverse, List.reverse_append, List.reverse_cons] at whole
    apply String.toList_inj.mp
    simp only [String.toList_append, String.toList_ofList]
    exact whole.symm

/-- A name without separators stands at the root. -/
theorem directoryOf_name {name : String} (clean : '/' ∉ name.toList) : directoryOf name = "" := by
  unfold directoryOf
  cases split : splitLast? '/' name with
  | none => rfl
  | some parts =>
    refine absurd ?_ clean
    rw [eq_of_splitLast? split, String.toList_append, String.toList_append]
    exact List.mem_append_left _ (List.mem_append_right _ (by decide))

/-- A name without separators stands below the directory in front of it. -/
theorem directoryOf_below (directory : String) {name : String} (clean : '/' ∉ name.toList) :
    directoryOf (directory ++ "/" ++ name) = directory := by
  have reversed : (directory ++ "/" ++ name).toList.reverse =
      name.toList.reverse ++ '/' :: directory.toList.reverse := by
    simp
  have passes : ∀ c ∈ name.toList.reverse, (c != '/') = true := by
    intro c member
    have apart : c ≠ '/' := fun same => clean (same ▸ List.mem_reverse.mp member)
    simpa using apart
  unfold directoryOf splitLast?
  simp only [reversed]
  rw [List.dropWhile_append_of_pos passes, List.dropWhile_cons_of_neg (by decide)]
  simp

/-- The directory of a path inside the module is inside it, or the root. -/
theorem isModuleRelative_directoryOf {path : String} (relative : isModuleRelative path = true)
    (below : directoryOf path ≠ "") : isModuleRelative (directoryOf path) = true := by
  obtain ⟨-, clean, segments⟩ := isModuleRelative_iff.mp relative
  unfold directoryOf at below ⊢
  cases split : splitLast? '/' path with
  | none =>
    rw [split] at below
    exact absurd rfl below
  | some parts =>
    obtain ⟨front, back⟩ := parts
    rw [split] at below
    have whole := eq_of_splitLast? split
    subst whole
    refine isModuleRelative_iff.mpr ⟨below, fun c member => clean c ?_, fun segment member =>
      segments segment ?_⟩
    · simp only [String.toList_append, List.mem_append]
      exact Or.inl (Or.inl member)
    · rw [splitText_append (by decide)]
      exact List.mem_append_left _ member

end GoRefactor
