import Std.Data.TreeMap

/-!
# Postings

A list of items filed under keys. Looking a key up gives the items that have it, in the order of
the list, without a scan: `lookup_ofList` says so.
-/

namespace GoRefactor

/-- Items by key. -/
structure Postings (κ α : Type) [Ord κ] where
  /-- The items under each key, in order. -/
  lists : Std.TreeMap κ (List α)

namespace Postings

variable {κ α : Type} [Ord κ]

/-- No items. -/
def empty : Postings κ α := ⟨∅⟩

/-- The default table is the empty one. -/
instance : Inhabited (Postings κ α) := ⟨empty⟩

/-- The items under a key. -/
def lookup (postings : Postings κ α) (key : κ) : List α := postings.lists.getD key []

/-- File an item before those already under its key. -/
def cons (postings : Postings κ α) (key : κ) (item : α) : Postings κ α :=
  ⟨postings.lists.insert key (item :: postings.lookup key)⟩

/-- File a list of items; those without a key are left out. -/
def ofList (key : α → Option κ) (items : List α) : Postings κ α :=
  items.foldr
    (fun item postings =>
      match key item with
      | some name => postings.cons name item
      | none => postings)
    empty

variable [Std.TransOrd κ] [Std.LawfulEqOrd κ]

/-- Filing an item changes what is under its key only. -/
theorem lookup_cons [DecidableEq κ] (postings : Postings κ α) (filed key : κ) (item : α) :
    (postings.cons filed item).lookup key =
      if filed = key then item :: postings.lookup key else postings.lookup key := by
  unfold cons lookup
  rw [Std.TreeMap.getD_insert]
  by_cases same : filed = key
  · subst same
    rw [if_pos Std.ReflCmp.compare_self, if_pos rfl]
  · have apart : ¬compare filed key = .eq := fun equal => same (Std.LawfulEqCmp.eq_of_compare equal)
    rw [if_neg apart, if_neg same]

/-- Under a key stand the items that have it, in order. -/
theorem lookup_ofList [DecidableEq κ] (key : α → Option κ) (items : List α) (name : κ) :
    (ofList key items).lookup name = items.filter fun item => key item == some name := by
  induction items with
  | nil => simp [ofList, empty, lookup]
  | cons item rest ih =>
    have step : ofList key (item :: rest) =
        match key item with
        | some name => (ofList key rest).cons name item
        | none => ofList key rest := rfl
    rw [step, List.filter_cons]
    cases found : key item with
    | none => simp [ih]
    | some filed =>
      simp only [lookup_cons, ih]
      by_cases same : filed = name <;> simp [same]

end Postings

end GoRefactor
