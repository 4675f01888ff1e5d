import GoRefactor.Proofs.Go.Passes
import GoRefactor.Symbol.Resolve
import Mathlib.Data.List.Forall2

/-!
# What a walk finds at a place

A walk over a tidy tree settles each name that it passes in one way: the uses that it notes at a
place are all the same, and there are none or as many as the walk passes the place. A type that is
passed again is settled as before, because a walk over a type leaves the names bound around it as
they are. What every noted use is like, tidy or not, is said by a predicate on uses.
-/

namespace GoRefactor

/-- Where a use stands. -/
def Use.span? : Use → Option Span
  | .found _ span _ => some span
  | .ambiguous _ span _ => some span
  | .unresolved => none

section Uniform

variable {α : Type} (place : α → Option Span)

/-- The items at a span. -/
def itemsAt (items : List α) (span : Span) : List α :=
  items.filter fun item => place item == some span

/-- At every span the items are all the same, and there are none or as many as the spans say. -/
def Uniform (items : List α) (spans : List Span) : Prop :=
  ∀ span, itemsAt place items span = [] ∨
    ∃ item, itemsAt place items span = List.replicate (spans.count span) item

variable {place}

/-- At a span stand the items of the first list and then those of the second. -/
theorem itemsAt_append (first second : List α) (span : Span) :
    itemsAt place (first ++ second) span = itemsAt place first span ++ itemsAt place second span :=
  List.filter_append ..

namespace Uniform

/-- No items at all are uniform over any spans. -/
theorem nil (spans : List Span) : Uniform place [] spans := fun _ => Or.inl rfl

/-- An item at a span of its own is uniform over it. -/
theorem one {item : α} {span : Span} (stands : place item = some span) :
    Uniform place [item] [span] := by
  intro other
  unfold itemsAt
  by_cases same : span = other
  · subst same
    rw [List.filter_cons_of_pos (by rw [stands]; exact beq_self_eq_true _)]
    exact Or.inr ⟨item, by simp⟩
  · refine Or.inl (List.filter_cons_of_neg ?_)
    rw [stands, beq_iff_eq, Option.some.injEq]
    exact same

/-- An item that is nowhere is uniform over any spans. -/
theorem nowhere {item : α} (spans : List Span) (stands : place item = none) :
    Uniform place [item] spans := by
  intro other
  refine Or.inl (List.filter_cons_of_neg ?_)
  rw [stands]
  exact Bool.false_ne_true

/-- No item is where there is no span. -/
theorem itemsAt_eq_nil {items : List α} {spans : List Span} (uniform : Uniform place items spans)
    {span : Span} (absent : span ∉ spans) : itemsAt place items span = [] := by
  rcases uniform span with none | ⟨item, same⟩
  · exact none
  · rwa [List.count_eq_zero_of_not_mem absent] at same

/-- Items behind items are uniform if their spans are different. -/
theorem append {first second : List α} {spans spans' : List Span}
    (uniform : Uniform place first spans) (uniform' : Uniform place second spans')
    (apart : spans.Disjoint spans') : Uniform place (first ++ second) (spans ++ spans') := by
  intro span
  rw [itemsAt_append, List.count_append]
  by_cases here : span ∈ spans
  · have absent : span ∉ spans' := fun there => apart here there
    rw [uniform'.itemsAt_eq_nil absent, List.append_nil, List.count_eq_zero_of_not_mem absent]
    exact uniform span
  · rw [uniform.itemsAt_eq_nil here, List.nil_append, List.count_eq_zero_of_not_mem here,
      Nat.zero_add]
    exact uniform' span

/-- Items of several lists in a row, of which no two have a span in common. -/
theorem flatten {lists : List (List α)} {spans : List (List Span)}
    (uniform : List.Forall₂ (Uniform place) lists spans) (apart : spans.Pairwise List.Disjoint) :
    Uniform place lists.flatten spans.flatten := by
  induction uniform with
  | nil => exact nil _
  | @cons items here lists there first _ ih =>
    obtain ⟨beyond, later⟩ := List.pairwise_cons.mp apart
    refine first.append (ih later) fun span inside outside => ?_
    obtain ⟨other, member, again⟩ := List.mem_flatten.mp outside
    exact beyond other member inside again

/-- The order of the items does not matter. -/
theorem perm {items items' : List α} {spans : List Span} (uniform : Uniform place items spans)
    (same : items'.Perm items) : Uniform place items' spans := by
  intro span
  have filtered : (itemsAt place items' span).Perm (itemsAt place items span) := same.filter _
  rcases uniform span with none | ⟨item, all⟩
  · rw [none] at filtered
    exact Or.inl filtered.eq_nil
  · rw [all] at filtered
    exact Or.inr ⟨item, List.perm_replicate.mp filtered⟩

/-- Items may be changed where they stand. -/
theorem map {β : Type} {change : α → β} {place' : β → Option Span} {items : List α}
    {spans : List Span} (uniform : Uniform place items spans)
    (keeps : ∀ item, place' (change item) = place item) :
    Uniform place' (items.map change) spans := by
  intro span
  have same : itemsAt place' (items.map change) span = (itemsAt place items span).map change := by
    unfold itemsAt
    rw [List.filter_map]
    simp only [Function.comp_def, keeps]
  rw [same]
  rcases uniform span with none | ⟨item, all⟩
  · exact Or.inl (by rw [none, List.map_nil])
  · exact Or.inr ⟨change item, by rw [all, List.map_replicate]⟩

/-- Items of parts in a row, where parts with a span in common are the same. -/
theorem flatMap {β : Type} {items : β → List α} {spans : β → List Span} {parts : List β}
    (uniform : ∀ part ∈ parts, Uniform place (items part) (spans part))
    (kin : parts.Pairwise fun left right => left = right ∨ (spans left).Disjoint (spans right)) :
    Uniform place (parts.flatMap items) (parts.flatMap spans) := by
  intro span
  induction parts with
  | nil => exact Or.inl rfl
  | cons head rest ih =>
    rw [List.pairwise_cons] at kin
    rw [List.flatMap_cons, List.flatMap_cons, itemsAt_append, List.count_append]
    have first := uniform head List.mem_cons_self
    have others (part : β) (member : part ∈ rest) := uniform part (List.mem_cons_of_mem _ member)
    by_cases here : span ∈ spans head
    · -- Every later part with the span is the head again.
      have again (part : β) (member : part ∈ rest) (there : span ∈ spans part) : part = head := by
        rcases kin.1 part member with same | apart
        · exact same.symm
        · exact absurd there (apart here)
      clear ih kin uniform
      rcases first span with none | ⟨item, same⟩
      · refine Or.inl ?_
        rw [none, List.nil_append]
        unfold itemsAt
        rw [List.filter_flatMap, List.flatMap_eq_nil_iff]
        intro part member
        by_cases there : span ∈ spans part
        · rw [again part member there]
          exact none
        · exact (others part member).itemsAt_eq_nil there
      · refine Or.inr ⟨item, ?_⟩
        rw [same, List.replicate_add]
        congr 1
        induction rest with
        | nil => rfl
        | cons part rest ih =>
          rw [List.flatMap_cons, List.flatMap_cons, itemsAt_append, List.count_append,
            List.replicate_add, ih (fun part member => others part (List.mem_cons_of_mem _ member))
              (fun part member => again part (List.mem_cons_of_mem _ member))]
          congr 1
          by_cases there : span ∈ spans part
          · rw [again part List.mem_cons_self there]
            exact same
          · rw [(others part List.mem_cons_self).itemsAt_eq_nil there,
              List.count_eq_zero_of_not_mem there]
            rfl
    · rw [first.itemsAt_eq_nil here, List.nil_append, List.count_eq_zero_of_not_mem here,
        Nat.zero_add]
      exact ih others kin.2

end Uniform

end Uniform

/-- The uses stand at some spans, and over something tidy they are uniform. -/
structure Lands (out : List Use) (spans : List Span) (tidy : Prop) : Prop where
  /-- No use stands elsewhere. -/
  mem_spans : ∀ use ∈ out, ∀ span, use.span? = some span → span ∈ spans
  /-- Over something tidy the uses at a span are the same. -/
  uniform : tidy → Uniform Use.span? out spans

namespace Lands

variable {out more : List Use} {spans spans' : List Span} {tidy tidy' : Prop}

/-- No uses at all land on any spans. -/
theorem nil (spans : List Span) (tidy : Prop) : Lands [] spans tidy :=
  ⟨List.forall_mem_nil _, fun _ => .nil spans⟩

/-- A use lands at its span. -/
theorem one {use : Use} {span : Span} (stands : use.span? = some span) (tidy : Prop) :
    Lands [use] [span] tidy := by
  refine ⟨List.forall_mem_singleton.mpr fun other there => ?_, fun _ => .one stands⟩
  rw [← Option.some.inj (stands.symm.trans there)]
  exact List.mem_singleton_self span

/-- A use that is nowhere lands at any spans. -/
theorem nowhere {use : Use} (spans : List Span) (stands : use.span? = none) (tidy : Prop) :
    Lands [use] spans tidy := by
  refine ⟨List.forall_mem_singleton.mpr fun other there => ?_, fun _ => .nowhere spans stands⟩
  rw [stands] at there
  cases there

/-- Less may be asked for the uses to be uniform. -/
theorem weaken (lands : Lands out spans tidy) (neater : tidy' → tidy) : Lands out spans tidy' :=
  ⟨lands.mem_spans, lands.uniform ∘ neater⟩

/-- Uses behind others land at the spans of both. -/
theorem append (lands : Lands out spans tidy) (lands' : Lands more spans' tidy') :
    Lands (out ++ more) (spans ++ spans') (tidy ∧ tidy' ∧ spans.Disjoint spans') := by
  refine ⟨List.forall_mem_append.mpr ⟨?_, ?_⟩, ?_⟩
  · exact fun use member span stands =>
      List.mem_append_left spans' (lands.mem_spans use member span stands)
  · exact fun use member span stands =>
      List.mem_append_right spans (lands'.mem_spans use member span stands)
  · rintro ⟨holds, holds', apart⟩
    exact (lands.uniform holds).append (lands'.uniform holds') apart

/-- Uses that leave spans in front of their own out. -/
theorem omitting (lands : Lands out spans' tidy) :
    Lands out (spans ++ spans') (tidy ∧ spans.Disjoint spans') :=
  ((nil spans True).append lands).weaken fun ⟨holds, apart⟩ => ⟨trivial, holds, apart⟩

end Lands

namespace Walking

variable {α β : Type} {fair : Use → Prop} {scopes after : Scopes} {value : α} {out : List Use}

/-- From some scopes a walk gives a value, leaves scopes behind and adds fair uses. -/
structure Emits (fair : Use → Prop) (action : Walking α) (scopes : Scopes) (value : α)
    (after : Scopes) (out : List Use) : Prop where
  /-- What the walk does, whatever was noted before. -/
  run : ∀ uses, action.run ⟨scopes, uses⟩ = (value, ⟨after, out.reverse ++ uses⟩)
  /-- Every use that it adds is fair. -/
  uses_fair : ∀ use ∈ out, fair use

namespace Emits

/-- A step that only gives a value emits no uses and leaves the scopes as they are. -/
theorem pure (value : α) (scopes : Scopes) : Emits fair (Pure.pure value) scopes value scopes [] :=
  ⟨fun _ => rfl, List.forall_mem_nil _⟩

/-- Two steps in a row emit the uses of the first one and then those of the second. -/
theorem bind {action : Walking α} {following : α → Walking β} {final : Scopes} {result : β}
    {more : List Use} (first : Emits fair action scopes value after out)
    (second : Emits fair (following value) after result final more) :
    Emits fair (action >>= following) scopes result final (out ++ more) := by
  refine ⟨fun uses => ?_, List.forall_mem_append.mpr ⟨first.uses_fair, second.uses_fair⟩⟩
  change (following (action.run ⟨scopes, uses⟩).1).run (action.run ⟨scopes, uses⟩).2 = _
  rw [first.run, second.run, List.reverse_append, List.append_assoc]

/-- A step that notes a use emits that use alone and leaves the scopes as they are. -/
theorem note {use : Use} (holds : fair use) (scopes : Scopes) :
    Emits fair (Walking.note use) scopes () scopes [use] :=
  ⟨fun _ => rfl, List.forall_mem_singleton.mpr holds⟩

/-- What follows the state adds what it adds for the scopes. -/
theorem get {following : Walk → Walking β} {result : β} {final : Scopes} {more : List Use}
    (same : ∀ uses, following ⟨scopes, uses⟩ = following ⟨scopes, []⟩)
    (emits : Emits fair (following ⟨scopes, []⟩) scopes result final more) :
    Emits fair (MonadState.get >>= following) scopes result final more := by
  refine ⟨fun uses => ?_, emits.uses_fair⟩
  change (following ⟨scopes, uses⟩).run ⟨scopes, uses⟩ = _
  rw [same, emits.run]

/-- A walk adds one list of uses. -/
theorem unique {action : Walking α} {value' : α} {after' : Scopes} {out' : List Use}
    (first : Emits fair action scopes value after out)
    (second : Emits fair action scopes value' after' out') : out = out' := by
  have same := (first.run []).symm.trans (second.run [])
  have uses := congrArg (fun result => result.2.uses) same
  simpa using uses

end Emits

/-- A step keeps the scopes and notes uses at some spans at most. -/
def Touches (fair : Use → Prop) (action : Walking α) (scopes : Scopes) (value : α)
    (spans : List Span) : Prop :=
  ∃ out, Emits fair action scopes value scopes out ∧ Lands out spans True

/-- A walk keeps the outer scopes, all of them if it restores them, and notes uses at some spans at
most, uniform ones over something tidy. -/
def Walks (fair : Use → Prop) (action : Walking Unit) (scopes : Scopes) (spans : List Span)
    (restores : Bool) (tidy : Prop) : Prop :=
  ∃ after out, Emits fair action scopes () after out ∧ after.tail = scopes.tail ∧
    (restores = true → after = scopes) ∧ Lands out spans tidy

/-- What is walked notes uses at some spans at most, uniform ones if it is tidy. -/
def Notes (fair : Use → Prop) (action : Walking Unit) (scopes : Scopes) (spans : List Span)
    (tidy : Prop) : Prop :=
  ∃ after out, Emits fair action scopes () after out ∧ Lands out spans tidy

/-- A step binds names in the innermost scope and notes nothing. -/
def Binds (fair : Use → Prop) (action : Walking Unit) (scopes : Scopes) : Prop :=
  ∃ after, Emits fair action scopes () after [] ∧ after.tail = scopes.tail

namespace Binds

/-- Doing nothing binds no names. -/
theorem pure (scopes : Scopes) : Binds fair (Pure.pure ()) scopes := ⟨scopes, .pure () scopes, rfl⟩

/-- Binding a name changes the scopes and emits nothing. -/
theorem bindName (name : String) (bound : Local) (scopes : Scopes) :
    Binds fair (Walking.bindName name bound) scopes := by
  cases scopes with
  | nil => exact ⟨[], ⟨fun _ => rfl, List.forall_mem_nil _⟩, rfl⟩
  | cons frame outer =>
    by_cases blank : (name == "_") = true
    · refine ⟨frame :: outer, ⟨fun uses => ?_, List.forall_mem_nil _⟩, rfl⟩
      change ((), if (name == "_") = true then _ else _) = _
      rw [if_pos blank]
      rfl
    · refine ⟨((name, bound) :: frame) :: outer, ⟨fun uses => ?_, List.forall_mem_nil _⟩, rfl⟩
      change ((), if (name == "_") = true then _ else _) = _
      rw [if_neg blank]
      rfl

/-- Binding some names after others changes the scopes and emits nothing. -/
theorem bind {action following : Walking Unit}
    (first : Binds fair action scopes) (second : ∀ scopes, Binds fair following scopes) :
    Binds fair (action >>= fun _ => following) scopes := by
  obtain ⟨after, emits, outer⟩ := first
  obtain ⟨final, emits', outer'⟩ := second after
  exact ⟨final, emits.bind emits', outer'.trans outer⟩

/-- What follows the state binds what it binds for the scopes. -/
theorem get {following : Walk → Walking Unit}
    (same : ∀ uses, following ⟨scopes, uses⟩ = following ⟨scopes, []⟩)
    (binds : Binds fair (following ⟨scopes, []⟩) scopes) :
    Binds fair (MonadState.get >>= following) scopes := by
  obtain ⟨after, emits, outer⟩ := binds
  exact ⟨after, .get same emits, outer⟩

end Binds

namespace Touches

variable {span : Span}

/-- A step that only gives a value touches no more than any spans. -/
theorem pure (value : α) (scopes : Scopes) (spans : List Span) :
    Touches fair (Pure.pure value) scopes value spans :=
  ⟨[], .pure value scopes, .nil spans True⟩

/-- A use touches its span. -/
theorem note {use : Use} (stands : use.span? = some span) (holds : fair use) (scopes : Scopes) :
    Touches fair (Walking.note use) scopes () [span] :=
  ⟨[use], .note holds scopes, .one stands True⟩

/-- A use without candidates is noted nowhere. -/
theorem unresolved (holds : fair .unresolved) (scopes : Scopes) (spans : List Span) :
    Touches fair (Walking.note .unresolved) scopes () spans :=
  ⟨[.unresolved], .note holds scopes, .nowhere spans rfl True⟩

/-- Two steps in a row touch the spans of both, if those are different. -/
theorem bind {action : Walking α} {following : α → Walking β} {result : β}
    {spans spans' : List Span} (first : Touches fair action scopes value spans)
    (second : Touches fair (following value) scopes result spans') (apart : spans.Disjoint spans') :
    Touches fair (action >>= following) scopes result (spans ++ spans') := by
  obtain ⟨out, emits, lands⟩ := first
  obtain ⟨more, emits', lands'⟩ := second
  exact ⟨out ++ more, emits.bind emits', (lands.append lands').weaken fun _ =>
    ⟨trivial, trivial, apart⟩⟩

/-- What follows the state touches what it touches for the scopes. -/
theorem get {following : Walk → Walking β} {result : β} {spans : List Span}
    (same : ∀ uses, following ⟨scopes, uses⟩ = following ⟨scopes, []⟩)
    (touches : Touches fair (following ⟨scopes, []⟩) scopes result spans) :
    Touches fair (MonadState.get >>= following) scopes result spans := by
  obtain ⟨out, emits, lands⟩ := touches
  exact ⟨out, .get same emits, lands⟩

/-- A step is a walk. -/
theorem walks {action : Walking Unit} {spans : List Span}
    (touches : Touches fair action scopes () spans) (restores : Bool) (tidy : Prop) :
    Walks fair action scopes spans restores tidy := by
  obtain ⟨out, emits, lands⟩ := touches
  exact ⟨scopes, out, emits, rfl, fun _ => rfl, lands.weaken fun _ => trivial⟩

end Touches

namespace Walks

variable {restores restores' : Bool} {tidy tidy' : Prop} {spans spans' : List Span}

/-- A walk over nothing passes no spans. -/
theorem pure (scopes : Scopes) : Walks fair (Pure.pure ()) scopes [] restores tidy :=
  (Touches.pure () scopes []).walks restores tidy

/-- A walk may promise less. -/
theorem weaken {action : Walking Unit} (walks : Walks fair action scopes spans restores tidy)
    (stricter : restores' = true → restores = true) (neater : tidy' → tidy) :
    Walks fair action scopes spans restores' tidy' := by
  obtain ⟨after, out, emits, outer, same, lands⟩ := walks
  exact ⟨after, out, emits, outer, same ∘ stricter, lands.weaken neater⟩

/-- Two walks in a row pass the spans of both, and are tidy where those are different. -/
theorem bind {action following : Walking Unit}
    (first : Walks fair action scopes spans restores tidy)
    (second : ∀ scopes, Walks fair following scopes spans' restores' tidy') :
    Walks fair (action >>= fun _ => following) scopes (spans ++ spans') (restores && restores')
      (tidy ∧ tidy' ∧ spans.Disjoint spans') := by
  obtain ⟨after, out, emits, outer, same, lands⟩ := first
  obtain ⟨final, more, emits', outer', same', lands'⟩ := second after
  refine ⟨final, out ++ more, emits.bind emits', outer'.trans outer, ?_, lands.append lands'⟩
  intro both
  obtain ⟨one, other⟩ := Bool.and_eq_true_iff.mp both
  exact (same' other).trans (same one)

/-- A walk that leaves spans in front of its own out. -/
theorem omitting {action : Walking Unit} (walks : Walks fair action scopes spans' restores tidy) :
    Walks fair action scopes (spans ++ spans') restores (tidy ∧ spans.Disjoint spans') := by
  obtain ⟨after, out, emits, outer, same, lands⟩ := walks
  exact ⟨after, out, emits, outer, same, lands.omitting⟩

/-- A walk behind a step passes the spans of both, and is tidy where those are different. -/
theorem behind {action : Walking α} {following : α → Walking Unit}
    (first : Touches fair action scopes value spans)
    (second : Walks fair (following value) scopes spans' restores tidy) :
    Walks fair (action >>= following) scopes (spans ++ spans') restores
      (tidy ∧ spans.Disjoint spans') := by
  obtain ⟨out, emits, lands⟩ := first
  obtain ⟨after, more, emits', outer, same, lands'⟩ := second
  exact ⟨after, out ++ more, emits.bind emits', outer, same,
    (lands.append lands').weaken fun ⟨holds, apart⟩ => ⟨trivial, holds, apart⟩⟩

/-- What follows the state walks as it does for the scopes. -/
theorem get {following : Walk → Walking Unit}
    (same : ∀ uses, following ⟨scopes, uses⟩ = following ⟨scopes, []⟩)
    (walks : Walks fair (following ⟨scopes, []⟩) scopes spans restores tidy) :
    Walks fair (MonadState.get >>= following) scopes spans restores tidy := by
  obtain ⟨after, out, emits, kept⟩ := walks
  exact ⟨after, out, .get same emits, kept⟩

/-- Another reason for the uses to be uniform. -/
theorem because {action : Walking Unit} (walks : Walks fair action scopes spans restores tidy)
    (uniform : tidy' → ∃ after out, Emits fair action scopes () after out ∧
      Uniform Use.span? out spans) : Walks fair action scopes spans restores tidy' := by
  obtain ⟨after, out, emits, outer, same, lands⟩ := walks
  refine ⟨after, out, emits, outer, same, lands.mem_spans, fun holds => ?_⟩
  obtain ⟨after', out', emits', uniform⟩ := uniform holds
  rwa [emits.unique emits']

/-- What is walked in a scope of its own restores the scopes. -/
theorem enclosed {action : Walking Unit}
    (inner : Walks fair action ([] :: scopes) spans restores' tidy) :
    Walks fair (Walking.enclosed action) scopes spans restores tidy := by
  obtain ⟨after, out, emits, outer, -, lands⟩ := inner
  refine ⟨scopes, out, ⟨fun uses => ?_, emits.uses_fair⟩, rfl, fun _ => rfl, lands⟩
  change ((), { (action.run ⟨[] :: scopes, uses⟩).2 with
    scopes := (action.run ⟨[] :: scopes, uses⟩).2.scopes.tail }) = _
  rw [emits.run]
  exact congrArg (fun frames => ((), (⟨frames, _⟩ : Walk))) outer

/-- What binds names after a walk keeps the outer scopes. -/
theorem binding {action following : Walking Unit}
    (first : Walks fair action scopes spans restores tidy)
    (binds : ∀ scopes, Binds fair following scopes) :
    Walks fair (action >>= fun _ => following) scopes spans false tidy := by
  obtain ⟨after, out, emits, outer, -, lands⟩ := first
  obtain ⟨final, emits', outer'⟩ := binds after
  refine ⟨final, out ++ [], emits.bind emits', outer'.trans outer, fun no => (by cases no), ?_⟩
  rw [List.append_nil]
  exact lands

/-- A walk behind what binds names passes the spans that it passes alone. -/
theorem bound {action following : Walking Unit}
    (binds : Binds fair action scopes)
    (walks : ∀ scopes, Walks fair following scopes spans restores tidy) :
    Walks fair (action >>= fun _ => following) scopes spans false tidy := by
  obtain ⟨after, emits, outer⟩ := binds
  obtain ⟨final, out, emits', outer', -, lands⟩ := walks after
  exact ⟨final, out, emits.bind emits', outer'.trans outer, fun no => (by cases no), lands⟩

/-- A walk notes its uses. -/
theorem notes {action : Walking Unit} (walks : Walks fair action scopes spans restores tidy) :
    Notes fair action scopes spans tidy := by
  obtain ⟨after, out, emits, -, -, lands⟩ := walks
  exact ⟨after, out, emits, lands⟩

/-- What follows a walk may leave other scopes behind. -/
theorem before {action following : Walking Unit}
    (first : Walks fair action scopes spans restores tidy)
    (second : ∀ scopes, Notes fair following scopes spans' tidy') :
    Notes fair (action >>= fun _ => following) scopes (spans ++ spans')
      (tidy ∧ tidy' ∧ spans.Disjoint spans') := by
  obtain ⟨after, out, emits, -, -, lands⟩ := first
  obtain ⟨final, more, emits', lands'⟩ := second after
  exact ⟨final, out ++ more, emits.bind emits', lands.append lands'⟩

end Walks

/-- Less may be asked for the uses to be uniform. -/
theorem Notes.weaken {action : Walking Unit} {spans : List Span} {tidy tidy' : Prop}
    (notes : Notes fair action scopes spans tidy) (neater : tidy' → tidy) :
    Notes fair action scopes spans tidy' := by
  obtain ⟨after, out, emits, lands⟩ := notes
  exact ⟨after, out, emits, lands.weaken neater⟩

/-- What is noted below a frame of names. -/
theorem Notes.pushing {following : Walking Unit} {spans : List Span} {tidy : Prop}
    {frame : List (String × Local)} (notes : Notes fair following (frame :: scopes) spans tidy) :
    Notes fair
      (modify (fun walk => { walk with scopes := frame :: walk.scopes }) >>= fun _ => following)
      scopes spans tidy := by
  obtain ⟨after, out, emits, lands⟩ := notes
  exact ⟨after, out, ⟨fun uses => emits.run uses, emits.uses_fair⟩, lands⟩

end Walking

end GoRefactor
