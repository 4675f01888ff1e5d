import GoRefactor.Error
import GoRefactor.Proofs.Attempt
import GoRefactor.Proofs.Go.Tours

/-!
# One visitor after another

Visiting a value and then visiting what came out is one visit, by the visitor that does both at
every span and name. A visitor that always has an answer leads to what it gives when nothing can
fail. And what passes a test that changes nothing is visited alike by visitors that agree on what
passes.
-/

namespace GoRefactor

namespace SpanVisitor

/-- Do what the first visitor does, then what the second does with that. -/
def andThen (first second : SpanVisitor (Except Fault)) : SpanVisitor (Except Fault) where
  span span := first.span span >>= second.span
  name name span := do
    let name' ← first.name name span
    let span' ← first.span span
    second.name name' span'

/-- The visitor among those that may fail. -/
def sure (visitor : SpanVisitor Id) : SpanVisitor (Except Fault) where
  span span := .ok (visitor.span span)
  name name span := .ok (visitor.name name span)

/-- A name is exchanged with its span exactly if both are. -/
theorem named_eq_ok_iff {visitor : SpanVisitor (Except Fault)} {name name' : String}
    {span span' : Span} :
    visitor.named name span = .ok (name', span') ↔
      visitor.name name span = .ok name' ∧ visitor.span span = .ok span' := by
  unfold named
  constructor
  · intro visited
    obtain ⟨image, renamed, visited⟩ := bind_eq_ok.mp visited
    obtain ⟨place, moved, visited⟩ := bind_eq_ok.mp visited
    cases visited
    exact ⟨renamed, moved⟩
  · rintro ⟨renamed, moved⟩
    rw [renamed, bind_ok, moved]
    rfl

variable {first second : SpanVisitor (Except Fault)}

/-- A span that the first visitor moves is left to the second. -/
theorem span_andThen {span span' : Span} (visited : first.span span = .ok span') :
    (first.andThen second).span span = second.span span' := by
  change first.span span >>= second.span = _
  rw [visited, bind_ok]

/-- A name that the first visitor exchanges is left to the second, with its span. -/
theorem named_andThen {name name' : String} {span span' : Span}
    (visited : first.named name span = .ok (name', span')) :
    (first.andThen second).named name span = second.named name' span' := by
  obtain ⟨renamed, moved⟩ := named_eq_ok_iff.mp visited
  have both : (first.andThen second).name name span = second.name name' span' := by
    change (first.name name span >>= fun image => first.span span >>= second.name image) = _
    rw [renamed, bind_ok, moved, bind_ok]
  unfold named
  rw [both, span_andThen moved]

/-- An answer is of the kind that is asked about, and is what the visitor makes of that. -/
theorem answer_eq_ok_iff {visitor : SpanVisitor (Except Fault)} {asked answer : Offer} :
    visitor.answer asked = .ok answer ↔
      (∃ span span', asked = .span span ∧ answer = .span span' ∧ visitor.span span = .ok span') ∨
      ∃ name span name' span', asked = .name name span ∧ answer = .name name' span' ∧
        visitor.named name span = .ok (name', span') := by
  cases asked with
  | span span =>
    rw [SpanVisitor.answer, map_eq_ok]
    constructor
    · rintro ⟨span', visited, rfl⟩
      exact Or.inl ⟨span, span', rfl, rfl, visited⟩
    · rintro (⟨_, span', ⟨⟩, rfl, visited⟩ | ⟨_, _, _, _, ⟨⟩, -⟩)
      exact ⟨span', visited, rfl⟩
  | name name span =>
    rw [SpanVisitor.answer, map_eq_ok]
    constructor
    · rintro ⟨⟨name', span'⟩, visited, rfl⟩
      exact Or.inr ⟨name, span, name', span', rfl, rfl, visited⟩
    · rintro (⟨_, _, ⟨⟩, -⟩ | ⟨_, _, name', span', ⟨⟩, rfl, visited⟩)
      exact ⟨(name', span'), visited, rfl⟩

/-- What the first visitor answers is left to the second. -/
theorem answer_andThen {asked answer : Offer} (answered : first.answer asked = .ok answer) :
    (first.andThen second).answer asked = second.answer answer := by
  obtain ⟨span, span', rfl, rfl, visited⟩ | ⟨name, span, name', span', rfl, rfl, visited⟩ :=
    answer_eq_ok_iff.mp answered
  · rw [SpanVisitor.answer, SpanVisitor.answer, span_andThen visited]
  · rw [SpanVisitor.answer, SpanVisitor.answer, named_andThen visited]

/-- So are all answers of the first visitor. -/
theorem answers_andThen {asked answers : List Offer}
    (answered : asked.mapM first.answer = .ok answers) :
    asked.mapM (first.andThen second).answer = answers.mapM second.answer := by
  replace answered := mapM_eq_ok_iff.mp answered
  induction answered with
  | nil => rfl
  | cons head rest ih => rw [List.mapM_cons, List.mapM_cons, answer_andThen head, ih]

/-- Answers are of the kinds that are asked about. -/
theorem isName_of_answers {visitor : SpanVisitor (Except Fault)} {asked answers : List Offer}
    (answered : asked.mapM visitor.answer = .ok answers) :
    answers.map Offer.isName = asked.map Offer.isName := by
  refine map_eq_map_of_forall₂ _ _ (fun offer answer given => ?_) (mapM_eq_ok_iff.mp answered)
  obtain ⟨span, span', rfl, rfl, -⟩ | ⟨name, span, name', span', rfl, rfl, -⟩ :=
    answer_eq_ok_iff.mp given <;> rfl

/-- A visitor that always has an answer has one to all that is asked. -/
theorem answers_sure (visitor : SpanVisitor Id) (asked : List Offer) :
    asked.mapM visitor.sure.answer = .ok (asked.mapM visitor.answer).run := by
  rw [List.idRun_mapM, mapM_eq_ok_iff, List.forall₂_map_right_iff]
  exact List.forall₂_same.mpr fun offer _ => by cases offer <;> rfl

end SpanVisitor

namespace Exchanges

variable {α : Type} {walk : α → SpanWalk α} {good : List Offer → α → Prop} {given image : α}

/-- **One walk after another is one walk**, by the visitor that does what both do. -/
theorem andThen (exchanges : Exchanges walk good given) {first second : SpanVisitor (Except Fault)}
    (visited : walk given _ first = .ok image) :
    walk given _ (first.andThen second) = walk image _ second := by
  obtain ⟨places, put, rfl, fills⟩ := exchanges
  rw [(fills places rfl).1] at visited ⊢
  obtain ⟨answers, answered, rfl⟩ := map_eq_ok.mp visited
  rw [(fills answers (SpanVisitor.isName_of_answers answered)).1,
    SpanVisitor.answers_andThen answered]

/-- **A visitor that always has an answer leads through the walk**, to what it gives when nothing
can fail. -/
theorem sure (exchanges : Exchanges walk good given) (visitor : SpanVisitor Id) :
    walk given _ visitor.sure = .ok (walk given Id visitor) := by
  obtain ⟨places, put, rfl, fills⟩ := exchanges
  rw [(fills places rfl).1, (fills places rfl).1, SpanVisitor.answers_sure]
  rfl

end Exchanges

namespace SpanVisitor

/-! ## Tests -/

/-- The visitor changes nothing; it may fail. -/
structure IsTest (test : SpanVisitor (Except Fault)) : Prop where
  /-- Spans stay. -/
  span : ∀ {span image : Span}, test.span span = .ok image → image = span
  /-- Names stay. -/
  name : ∀ {name image : String} {span : Span}, test.name name span = .ok image → image = name

/-- Behind a test, visitors are the same if they agree on what passes. -/
theorem IsTest.andThen_congr {test first second : SpanVisitor (Except Fault)} (isTest : test.IsTest)
    (spans : ∀ span, test.span span = .ok span → first.span span = second.span span)
    (names : ∀ name span, test.name name span = .ok name → test.span span = .ok span →
      first.name name span = second.name name span) :
    test.andThen first = test.andThen second := by
  unfold andThen
  congr 1
  · funext span
    cases passed : test.span span with
    | error fault => rfl
    | ok image =>
      cases isTest.span passed
      exact spans span passed
  · funext name span
    cases known : test.name name span with
    | error fault => rfl
    | ok image =>
      cases isTest.name known
      cases passed : test.span span with
      | error fault => rfl
      | ok image =>
        cases isTest.span passed
        exact names name span known passed

end SpanVisitor

end GoRefactor
