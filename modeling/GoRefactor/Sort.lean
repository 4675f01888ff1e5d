/-!
# Sorting

Lists in increasing order, by insertion, so that members that the order does not tell apart keep
their places. The recursion is on the list alone: a sorted list can be evaluated.
-/

namespace GoRefactor

variable {α : Type}

/-- Put an item in front of the first one that it does not exceed. -/
def insertBy (le : α → α → Bool) (item : α) : List α → List α
  | [] => [item]
  | head :: rest => if le item head then item :: head :: rest else head :: insertBy le item rest

/-- The items in increasing order; equals keep their order. -/
def sortBy (le : α → α → Bool) : List α → List α
  | [] => []
  | head :: rest => insertBy le head (sortBy le rest)

/-- Insertion adds the item and nothing else. -/
theorem insertBy_perm (le : α → α → Bool) (item : α) (items : List α) :
    (insertBy le item items).Perm (item :: items) := by
  induction items with
  | nil => exact List.Perm.refl _
  | cons head rest ih =>
    rw [insertBy]
    split
    · exact List.Perm.refl _
    · exact (ih.cons head).trans (List.Perm.swap item head rest)

/-- Sorting keeps the members and how often they occur. -/
theorem sortBy_perm (le : α → α → Bool) (items : List α) : (sortBy le items).Perm items := by
  induction items with
  | nil => exact List.Perm.refl _
  | cons head rest ih =>
    rw [sortBy]
    exact (insertBy_perm le head (sortBy le rest)).trans (ih.cons head)

/-- Sorting keeps the members. -/
@[simp]
theorem mem_sortBy (le : α → α → Bool) (items : List α) (item : α) :
    item ∈ sortBy le items ↔ item ∈ items :=
  (sortBy_perm le items).mem_iff

/-- Insertion into an ordered list keeps the order. -/
theorem pairwise_insertBy {le : α → α → Bool} (total : ∀ left right, le left right ∨ le right left)
    (trans : ∀ left middle right, le left middle → le middle right → le left right) (item : α)
    {items : List α} (ordered : items.Pairwise fun left right => le left right = true) :
    (insertBy le item items).Pairwise fun left right => le left right = true := by
  induction items with
  | nil => exact List.pairwise_singleton _ item
  | cons head rest ih =>
    have parts := List.pairwise_cons.mp ordered
    rw [insertBy]
    by_cases before : le item head = true
    · rw [if_pos before]
      refine List.pairwise_cons.mpr ⟨fun other member => ?_, ordered⟩
      rcases List.mem_cons.mp member with rfl | later
      · exact before
      · exact trans item head other before (parts.1 other later)
    · rw [if_neg before]
      refine List.pairwise_cons.mpr ⟨fun other member => ?_, ih parts.2⟩
      rcases List.mem_cons.mp ((insertBy_perm le item rest).mem_iff.mp member) with rfl | later
      · exact (total other head).resolve_left before
      · exact parts.1 other later

/-- A sorted list is in order. -/
theorem pairwise_sortBy {le : α → α → Bool} (total : ∀ left right, le left right ∨ le right left)
    (trans : ∀ left middle right, le left middle → le middle right → le left right)
    (items : List α) : (sortBy le items).Pairwise fun left right => le left right = true := by
  induction items with
  | nil => exact List.Pairwise.nil
  | cons head rest ih => exact pairwise_insertBy total trans head ih

end GoRefactor
