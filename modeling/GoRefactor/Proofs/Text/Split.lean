import GoRefactor.Text.Split

/-!
# Laws of cutting text

Cutting a text at a separator loses nothing but the separators: the pieces joined again are the
text, so texts with the same pieces are equal. A text in front of a separator is cut by itself.
-/

namespace GoRefactor

/-- There is always a piece. -/
theorem splitChars_ne_nil (separator : Char) (cs : List Char) :
    splitChars separator cs ≠ [] := by
  induction cs with
  | nil => simp [splitChars]
  | cons c cs ih =>
    rw [splitChars]
    split
    · simp
    · split <;> simp

/-- What stands in front of a separator is cut by itself, and so is what stands behind it. -/
theorem splitChars_append (separator : Char) (front back : List Char) :
    splitChars separator (front ++ separator :: back) =
      splitChars separator front ++ splitChars separator back := by
  induction front with
  | nil => simp [splitChars]
  | cons c front ih =>
    rw [List.cons_append, splitChars, splitChars]
    split
    · rw [ih, List.cons_append]
    · rw [ih]
      cases pieces : splitChars separator front with
      | nil => exact absurd pieces (splitChars_ne_nil separator front)
      | cons piece rest => rfl

/-- Pieces with the separator between them. -/
def joinChars (separator : Char) : List (List Char) → List Char
  | [] => []
  | [piece] => piece
  | piece :: rest => piece ++ separator :: joinChars separator rest

/-- The pieces joined again are the text. -/
theorem joinChars_splitChars (separator : Char) (cs : List Char) :
    joinChars separator (splitChars separator cs) = cs := by
  induction cs with
  | nil => rfl
  | cons c cs ih =>
    rw [splitChars]
    cases pieces : splitChars separator cs with
    | nil => exact absurd pieces (splitChars_ne_nil separator cs)
    | cons piece rest =>
      rw [pieces] at ih
      by_cases same : (c == separator) = true
      · rw [if_pos same, joinChars, ih, beq_iff_eq.mp same]
        · rfl
        · simp
      · rw [if_neg same]
        cases rest with
        | nil =>
          rw [joinChars] at ih ⊢
          rw [ih]
        | cons second rest =>
          rw [joinChars] at ih ⊢
          · rw [List.cons_append, ih]
          · simp
          · simp

/-- No piece has a separator. -/
theorem not_mem_of_mem_splitChars {separator : Char} {cs piece : List Char}
    (member : piece ∈ splitChars separator cs) : separator ∉ piece := by
  induction cs generalizing piece with
  | nil =>
    rw [List.mem_singleton.mp member]
    exact List.not_mem_nil
  | cons c cs ih =>
    rw [splitChars] at member
    cases pieces : splitChars separator cs with
    | nil => exact absurd pieces (splitChars_ne_nil separator cs)
    | cons first rest =>
      rw [pieces] at ih member
      split at member
      · rcases List.mem_cons.mp member with rfl | later
        · exact List.not_mem_nil
        · exact ih later
      · rename_i other
        rcases List.mem_cons.mp member with rfl | later
        · rw [List.mem_cons, not_or]
          exact ⟨fun same => other (beq_iff_eq.mpr same.symm), ih List.mem_cons_self⟩
        · exact ih (List.mem_cons_of_mem _ later)

/-- A text without separators is its only piece. -/
theorem splitChars_of_not_mem {separator : Char} {cs : List Char} (whole : separator ∉ cs) :
    splitChars separator cs = [cs] := by
  induction cs with
  | nil => rfl
  | cons c cs ih =>
    rw [List.mem_cons, not_or] at whole
    rw [splitChars, if_neg fun same => whole.1 (beq_iff_eq.mp same).symm, ih whole.2]

/-- Full lines of a text, each with the separator that ends it. -/
def fullLines (separator : Char) (lines : List (List Char)) : List Char :=
  lines.flatMap (· ++ [separator])

/-- Full lines are cut off one by one. -/
theorem splitChars_fullLines {separator : Char} {lines : List (List Char)}
    (whole : ∀ line ∈ lines, separator ∉ line) (rest : List Char) :
    splitChars separator (fullLines separator lines ++ rest) =
      lines ++ splitChars separator rest := by
  induction lines with
  | nil => rfl
  | cons line others ih =>
    obtain ⟨first, later⟩ := List.forall_mem_cons.mp whole
    have regrouped : fullLines separator (line :: others) ++ rest =
        line ++ separator :: (fullLines separator others ++ rest) := by
      simp [fullLines]
    rw [regrouped, splitChars_append, splitChars_of_not_mem first, ih later]
    rfl

/-- Pieces in front of another one are full lines. -/
theorem joinChars_append (separator : Char) (lines : List (List Char)) (line : List Char)
    (others : List (List Char)) :
    joinChars separator (lines ++ line :: others) =
      fullLines separator lines ++ joinChars separator (line :: others) := by
  induction lines with
  | nil => rfl
  | cons first rest ih =>
    rw [List.cons_append, joinChars, ih]
    · simp [fullLines]
    · simp

/-- The line stands in the text behind full lines, up to a separator or the end. -/
def StandsBehind (separator : Char) (lines : List (List Char)) (line cs : List Char) : Prop :=
  (∀ full ∈ lines, separator ∉ full) ∧ separator ∉ line ∧ ∃ rest,
    cs = fullLines separator lines ++ line ++ rest ∧ (rest = [] ∨ rest.head? = some separator)

/-- Lines stand in a text where it is cut into them. -/
theorem standsBehind_iff {separator : Char} {lines : List (List Char)} {line cs : List Char} :
    StandsBehind separator lines line cs ↔
      ∃ others, splitChars separator cs = lines ++ line :: others := by
  constructor
  · rintro ⟨full, whole, rest, rfl, ends⟩
    rw [List.append_assoc, splitChars_fullLines full]
    rcases ends with rfl | next
    · exact ⟨[], by rw [List.append_nil, splitChars_of_not_mem whole]⟩
    · obtain ⟨rest, rfl⟩ := List.head?_eq_some_iff.mp next
      exact ⟨_, by rw [splitChars_append, splitChars_of_not_mem whole]; rfl⟩
  · rintro ⟨others, cut⟩
    have whole (piece : List Char) (member : piece ∈ lines ++ line :: others) :
        separator ∉ piece := not_mem_of_mem_splitChars (cut ▸ member)
    refine ⟨fun full member => whole full (List.mem_append_left _ member), whole line (by simp), ?_⟩
    have joined := joinChars_splitChars separator cs
    rw [cut, joinChars_append] at joined
    cases others with
    | nil => exact ⟨[], by rw [← joined, joinChars, List.append_nil], Or.inl rfl⟩
    | cons next further =>
      refine ⟨separator :: joinChars separator (next :: further), ?_, Or.inr rfl⟩
      rw [← joined, joinChars, List.append_assoc]
      simp

/-- Texts with the same pieces are equal. -/
theorem splitText_injective (separator : Char) {left right : String}
    (same : splitText separator left = splitText separator right) : left = right := by
  have pieces : splitChars separator left.toList = splitChars separator right.toList := by
    refine (List.map_inj_right fun first second equal => ?_).mp same
    exact String.ofList_injective equal
  have chars : left.toList = right.toList := by
    rw [← joinChars_splitChars separator left.toList, pieces, joinChars_splitChars]
  exact String.toList_inj.mp chars

/-- A text in front of a separator is cut by itself. -/
theorem splitText_append {separator : Char} {between : String}
    (one : between.toList = [separator]) (front back : String) :
    splitText separator (front ++ between ++ back) =
      splitText separator front ++ splitText separator back := by
  unfold splitText
  rw [String.toList_append, String.toList_append, one, List.append_assoc, List.singleton_append,
    splitChars_append, List.map_append]

/-- There is always a piece of a text. -/
theorem splitText_ne_nil (separator : Char) (text : String) : splitText separator text ≠ [] := by
  unfold splitText
  simp [splitChars_ne_nil]

end GoRefactor
