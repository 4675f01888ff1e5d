import GoRefactor.Symbol.Basic

/-!
# Sorted lists without repetitions

Sorting by insertion gives what any stable sort gives. Dropping what is repeated from a sorted list
keeps its members and leaves each of them once.
-/

namespace GoRefactor

section sortBy

variable {α : Type} {le : α → α → Bool}

/-- An item is put behind all that it exceeds and in front of the first that it does not. -/
theorem insertBy_append {item : α} {front back : List α}
    (exceeds : ∀ other ∈ front, le item other = false)
    (stops : ∀ other ∈ back.head?, le item other = true) :
    insertBy le item (front ++ back) = front ++ item :: back := by
  induction front with
  | nil =>
    cases back with
    | nil => rfl
    | cons head rest =>
      rw [List.nil_append, insertBy, if_pos (stops head rfl)]
      rfl
  | cons head rest ih =>
    obtain ⟨first, later⟩ := List.forall_mem_cons.mp exceeds
    rw [List.cons_append, insertBy, first, if_neg Bool.false_ne_true, ih later]
    rfl

/-- A list in order is sorted as it is. -/
theorem sortBy_of_pairwise {items : List α}
    (sorted : items.Pairwise fun left right => le left right = true) : sortBy le items = items := by
  induction items with
  | nil => rfl
  | cons head rest ih =>
    obtain ⟨below, later⟩ := List.pairwise_cons.mp sorted
    rw [sortBy, ih later]
    exact insertBy_append (List.forall_mem_nil _) fun other first =>
      below other (List.mem_of_mem_head? first)

/-- **Sorting by insertion is sorting by merging**: both keep the order of equals. -/
theorem sortBy_eq_mergeSort (total : ∀ left right, le left right = true ∨ le right left = true)
    (trans : ∀ left middle right, le left middle = true → le middle right = true →
      le left right = true) (items : List α) : sortBy le items = items.mergeSort le := by
  have total' (left right : α) : (le left right || le right left) = true :=
    Bool.or_eq_true_iff.mpr (total left right)
  induction items with
  | nil => rw [sortBy, List.mergeSort_nil]
  | cons head rest ih =>
    obtain ⟨front, back, whole, others, exceeds⟩ := List.mergeSort_cons trans total' head rest
    have sorted := List.pairwise_mergeSort trans total' (head :: rest)
    rw [whole] at sorted
    have below := (List.pairwise_cons.mp (List.pairwise_append.mp sorted).2.1).1
    rw [sortBy, ih, others, whole]
    refine insertBy_append (fun other member => ?_) fun other first => ?_
    · simpa using exceeds other member
    · exact below other (List.mem_of_mem_head? first)

/-- Behind an insertion, what is kept of a sorted list is the insertion into what is kept of it. -/
theorem filter_insertBy (trans : ∀ first second third, le first second = true →
      le second third = true → le first third = true) (keep : α → Bool) (item : α)
    {items : List α} (sorted : items.Pairwise fun left right => le left right = true) :
    (insertBy le item items).filter keep =
      if keep item then insertBy le item (items.filter keep) else items.filter keep := by
  induction items with
  | nil => simp [insertBy, List.filter_cons]
  | cons head rest ih =>
    obtain ⟨below, sorted⟩ := List.pairwise_cons.mp sorted
    rw [insertBy]
    by_cases here : le item head = true
    · rw [if_pos here, List.filter_cons]
      split
      · -- What is left starts with a member that the item does not exceed either.
        cases left : (head :: rest).filter keep with
        | nil => rfl
        | cons first others =>
          have member : first ∈ (head :: rest).filter keep := left ▸ List.mem_cons_self
          have less : le item first = true := by
            rcases List.mem_cons.mp (List.mem_filter.mp member).1 with rfl | later
            · exact here
            · exact trans _ _ _ here (below first later)
          rw [insertBy, if_pos less]
      · rfl
    · rw [if_neg here, List.filter_cons, ih sorted, List.filter_cons]
      split
      · split
        · rw [insertBy, if_neg here]
        · rfl
      · rfl

/-- Sorting what is kept of a list keeps the same of the sorted list. -/
theorem filter_sortBy (total : ∀ left right, le left right = true ∨ le right left = true)
    (trans : ∀ first second third, le first second = true → le second third = true →
      le first third = true) (keep : α → Bool) (items : List α) :
    (sortBy le items).filter keep = sortBy le (items.filter keep) := by
  induction items with
  | nil => rfl
  | cons head rest ih =>
    rw [sortBy, filter_insertBy trans keep head (pairwise_sortBy total trans rest), ih,
      List.filter_cons]
    split
    · rw [sortBy]
    · rfl

end sortBy

variable {α : Type} [BEq α] [LawfulBEq α]

/-- Dropping repetitions keeps the members. -/
@[simp]
theorem mem_dropRepeats {items : List α} {item : α} : item ∈ dropRepeats items ↔ item ∈ items := by
  fun_induction dropRepeats items with
  | case1 first second rest repeated ih =>
    rw [ih, eq_of_beq repeated]
    simp
  | case2 first second rest _ ih => rw [List.mem_cons, ih, ← List.mem_cons]
  | case3 => rfl

/-- Where the order tells members apart, what is left of a sorted list is strictly ordered. -/
theorem pairwise_dropRepeats {rel : α → α → Prop}
    (antisymm : ∀ left right, rel left right → rel right left → left = right) {items : List α}
    (sorted : items.Pairwise rel) :
    (dropRepeats items).Pairwise fun left right => rel left right ∧ left ≠ right := by
  fun_induction dropRepeats items with
  | case1 first second rest _ ih => exact ih (List.pairwise_cons.mp sorted).2
  | case2 first second rest apart ih =>
    obtain ⟨below, later⟩ := List.pairwise_cons.mp sorted
    refine List.pairwise_cons.mpr ⟨fun other member => ?_, ih later⟩
    rw [mem_dropRepeats] at member
    refine ⟨below other member, ?_⟩
    rintro rfl
    -- The member after the first one would lie on both sides of it.
    rcases List.mem_cons.mp member with same | beyond
    · exact apart (beq_iff_eq.mpr same)
    · have again := (List.pairwise_cons.mp later).1 first beyond
      exact apart (beq_iff_eq.mpr (antisymm _ _ (below second List.mem_cons_self) again))
  | case3 short =>
    rename_i single
    match short, single with
    | [], _ => exact List.Pairwise.nil
    | [item], _ => exact List.pairwise_singleton _ item
    | first :: second :: rest, single => exact absurd rfl (single first second rest)

/-- Sorted numbers without repetitions increase strictly. -/
theorem pairwise_dropRepeats_sortBy (numbers : List Nat) :
    (dropRepeats (sortBy (fun left right => left ≤ right) numbers)).Pairwise (· < ·) := by
  have sorted : (sortBy (fun left right => left ≤ right) numbers).Pairwise
      fun left right => decide (left ≤ right) = true :=
    pairwise_sortBy (fun left right => by simpa using Nat.le_total left right)
      (fun left middle right low high => by simp only [decide_eq_true_eq] at *; omega) numbers
  have antisymm (left right : Nat) (low : decide (left ≤ right) = true)
      (high : decide (right ≤ left) = true) : left = right :=
    Nat.le_antisymm (of_decide_eq_true low) (of_decide_eq_true high)
  exact (pairwise_dropRepeats antisymm sorted).imp fun ⟨low, apart⟩ =>
    Nat.lt_of_le_of_ne (of_decide_eq_true low) apart

end GoRefactor
