import GoRefactor.Proofs.Edit.Visited

/-!
# What a walk shows

A walk shows its visitor every span of a file, and every name together with the span that addresses
it. Here both are listed, by the walk itself. It shows what stands in the places that it exchanges.
So a visitor gets through exactly if it has an answer to everything on the list, what it makes
shows its answers, and a visitor that leaves alone all that is listed leaves the file alone.
-/

namespace GoRefactor

/-- A value, and what was shown until it was made. -/
structure Shown (α : Type) where
  /-- The value. -/
  value : α
  /-- What was shown, in order. -/
  offers : List Offer

namespace Shown

/-- The spans that are shown. -/
def spans {α : Type} (shown : Shown α) : List Span := shown.offers.map Offer.place

/-- The names that are shown, with their spans. -/
def names {α : Type} (shown : Shown α) : List (String × Span) :=
  shown.offers.filterMap Offer.named?

/-- What is shown first stands first. -/
instance : Monad Shown where
  pure value := ⟨value, []⟩
  bind first next := ⟨(next first.value).value, first.offers ++ (next first.value).offers⟩

instance : LawfulMonad Shown := LawfulMonad.mk' Shown
  (fun shown => congrArg (Shown.mk shown.value) (List.append_nil shown.offers))
  (fun _ _ => rfl)
  (fun _ _ _ => congrArg (Shown.mk _) (List.append_assoc _ _ _))

/-- Whatever is made of the value, the same is shown. -/
theorem offers_map {α β : Type} (change : α → β) (shown : Shown α) :
    (change <$> shown).offers = shown.offers := List.append_nil shown.offers

/-- What the members of a list show is shown in their order. -/
theorem offers_mapM {α β : Type} (display : α → Shown β) (values : List α) :
    (values.mapM display).offers = values.flatMap fun value => (display value).offers := by
  induction values with
  | nil =>
    rw [List.mapM_nil]
    rfl
  | cons head rest ih =>
    rw [List.mapM_cons, List.flatMap_cons, ← ih]
    exact congrArg ((display head).offers ++ ·) (List.append_nil _)

end Shown

namespace SpanVisitor

/-- List what is shown, and change nothing. -/
def showing : SpanVisitor Shown where
  span span := ⟨span, [.span span]⟩
  name name span := ⟨name, [.name name span]⟩

/-- Of a name the span is listed, too. -/
theorem offers_answer (asked : Offer) : (showing.answer asked).offers = asked.shown := by
  cases asked <;> rfl

/-- With a name its span is answered. -/
theorem place_of_answer {visitor : SpanVisitor (Except Fault)} {asked answer : Offer}
    (answered : visitor.answer asked = .ok answer) :
    visitor.span asked.place = .ok answer.place := by
  obtain ⟨span, span', rfl, rfl, visited⟩ | ⟨name, span, name', span', rfl, rfl, visited⟩ :=
    answer_eq_ok_iff.mp answered
  · exact visited
  · exact (named_eq_ok_iff.mp visited).2

end SpanVisitor

namespace Offer

/-- What is shown of an offer is the offer itself, or its span. -/
theorem mem_shown_iff {asked offer : Offer} :
    offer ∈ asked.shown ↔ offer = asked ∨ offer = .span asked.place := by
  cases asked <;> simp [shown, place]

/-- A visitor that answers what is asked answers all that is shown of it. -/
theorem forall_shown_iff {asked : Offer} {visitor : SpanVisitor (Except Fault)} :
    (∀ offer ∈ asked.shown, ∃ answer, visitor.answer offer = .ok answer) ↔
      ∃ answer, visitor.answer asked = .ok answer := by
  simp only [mem_shown_iff, forall_eq_or_imp, forall_eq]
  refine ⟨And.left, fun ⟨answer, answered⟩ => ⟨⟨answer, answered⟩, .span answer.place, ?_⟩⟩
  exact map_eq_ok.mpr ⟨_, SpanVisitor.place_of_answer answered, rfl⟩

end Offer

/-- All of the second list comes from the first, by the visitor. -/
def Yields (visitor : SpanVisitor (Except Fault)) (offers images : List Offer) : Prop :=
  ∀ image ∈ images, ∃ offer ∈ offers, visitor.answer offer = .ok image

namespace Exchanges

variable {α : Type} {walk : α → SpanWalk α} {good : List Offer → α → Prop} {given image : α}
  {visitor : SpanVisitor (Except Fault)}

/-- What stands in the places is shown. -/
theorem shows (exchanges : Exchanges walk good given) :
    ∃ (places : List Offer) (put : List Offer → α), put places = given ∧
      ∀ answers, answers.map Offer.isName = places.map Offer.isName →
        (walk (put answers) _ SpanVisitor.showing).offers = answers.flatMap Offer.shown ∧
        ∀ visitor : SpanVisitor (Except Fault),
          walk (put answers) _ visitor = put <$> answers.mapM visitor.answer := by
  obtain ⟨places, put, made, fills⟩ := exchanges
  refine ⟨places, put, made, fun answers fit => ⟨?_, (fills answers fit).1 _⟩⟩
  rw [(fills answers fit).1, Shown.offers_map, Shown.offers_mapM]
  exact congrArg (List.flatMap · answers) (funext SpanVisitor.offers_answer)

/-- **A visitor gets through exactly if it answers all that the walk shows.** -/
theorem lists (exchanges : Exchanges walk good given) :
    (∃ image, walk given _ visitor = .ok image) ↔
      ∀ offer ∈ (walk given _ SpanVisitor.showing).offers,
        ∃ answer, visitor.answer offer = .ok answer := by
  obtain ⟨places, put, rfl, fills⟩ := exchanges.shows
  obtain ⟨shown, asks⟩ := fills places rfl
  rw [shown, asks, List.forall_mem_flatMap]
  simp only [Offer.forall_shown_iff, map_eq_ok, mapM_eq_ok_iff]
  constructor
  · rintro ⟨_, answers, matched, -⟩ asked member
    obtain ⟨answer, -, answered⟩ := exists_mem_of_forall₂ matched.flip member
    exact ⟨answer, answered⟩
  · intro each
    obtain ⟨answers, matched⟩ := exists_forall₂ each
    exact ⟨_, answers, matched, rfl⟩

/-- **What comes out shows the answers to what was shown.** -/
theorem yields (exchanges : Exchanges walk good given)
    (visited : walk given _ visitor = .ok image) :
    Yields visitor (walk given _ SpanVisitor.showing).offers
      (walk image _ SpanVisitor.showing).offers := by
  obtain ⟨places, put, rfl, fills⟩ := exchanges.shows
  obtain ⟨shown, asks⟩ := fills places rfl
  rw [asks] at visited
  obtain ⟨answers, answered, rfl⟩ := map_eq_ok.mp visited
  rw [shown, (fills answers (SpanVisitor.isName_of_answers answered)).1]
  intro image member
  obtain ⟨answer, inside, listed⟩ := List.mem_flatMap.mp member
  obtain ⟨asked, held, given⟩ := exists_mem_of_forall₂ (mapM_eq_ok_iff.mp answered) inside
  rcases Offer.mem_shown_iff.mp listed with rfl | rfl
  · exact ⟨asked, List.mem_flatMap.mpr ⟨asked, held, Offer.mem_shown_iff.mpr (.inl rfl)⟩, given⟩
  · exact ⟨.span asked.place,
      List.mem_flatMap.mpr ⟨asked, held, Offer.mem_shown_iff.mpr (.inr rfl)⟩,
      map_eq_ok.mpr ⟨_, SpanVisitor.place_of_answer given, rfl⟩⟩

/-- **A visitor that leaves alone all that is shown leaves the value alone.** -/
theorem fixes (exchanges : Exchanges walk good given)
    (stays : ∀ offer ∈ (walk given _ SpanVisitor.showing).offers,
      visitor.answer offer = .ok offer) : walk given _ visitor = .ok given := by
  obtain ⟨places, put, rfl, fills⟩ := exchanges.shows
  obtain ⟨shown, asks⟩ := fills places rfl
  rw [shown, List.forall_mem_flatMap] at stays
  have answered : places.mapM visitor.answer = .ok places :=
    mapM_eq_ok_iff.mpr (List.forall₂_same.mpr fun asked held =>
      stays asked held asked (Offer.mem_shown_iff.mpr (.inl rfl)))
  rw [asks, answered]
  rfl

end Exchanges

namespace Yields

variable {visitor : SpanVisitor (Except Fault)} {offers images offers' images' : List Offer}

/-- What comes from one of two lists comes from both in a row. -/
theorem append (first : Yields visitor offers images) (second : Yields visitor offers' images') :
    Yields visitor (offers ++ offers') (images ++ images') := by
  refine List.forall_mem_append.mpr ⟨fun image member => ?_, fun image member => ?_⟩
  · obtain ⟨offer, held, answered⟩ := first image member
    exact ⟨offer, List.mem_append_left _ held, answered⟩
  · obtain ⟨offer, held, answered⟩ := second image member
    exact ⟨offer, List.mem_append_right _ held, answered⟩

/-- Values each of which was visited show what comes from the values that were there before. -/
theorem flatMap {α : Type} {walk : α → SpanWalk α} {good : α → List Offer → α → Prop}
    (exchanges : ∀ value, Exchanges walk (good value) value) {before after : List α}
    (origin : ∀ value' ∈ after, ∃ value ∈ before, walk value _ visitor = .ok value') :
    Yields visitor (before.flatMap fun value => (walk value _ SpanVisitor.showing).offers)
      (after.flatMap fun value => (walk value _ SpanVisitor.showing).offers) := by
  intro image member
  obtain ⟨value', inside, shown⟩ := List.mem_flatMap.mp member
  obtain ⟨value, held, visited⟩ := origin value' inside
  obtain ⟨offer, listed, answered⟩ := (exchanges value).yields visited image shown
  exact ⟨offer, List.mem_flatMap.mpr ⟨value, held, listed⟩, answered⟩

end Yields

namespace SourceFile

open SpanVisitor

/-- The spans of a file, as a walk shows them. -/
def spans (file : SourceFile) : List Span := (SpanVisitor.showing.file file).spans

/-- The names of a file that a span addresses, with these spans, as a walk shows them. -/
def names (file : SourceFile) : List (String × Span) := (SpanVisitor.showing.file file).names

variable {file image : SourceFile} {visitor : SpanVisitor (Except Fault)}

/-- The span of a name is shown. -/
theorem mem_spans_of_mem_names {name : String} {span : Span}
    (member : (name, span) ∈ file.names) : span ∈ file.spans := by
  obtain ⟨offer, shown, named⟩ := List.mem_filterMap.mp member
  cases offer with
  | span => cases named
  | name =>
    cases named
    exact List.mem_map_of_mem shown

/-- A walk shows the package clause, and then one declaration after the other. -/
theorem offers_file (file : SourceFile) : (showing.file file).offers =
    (showing.named file.packageName file.packageSpan).offers ++
      (file.imports.flatMap (fun decl => (showing.importDecl decl).offers) ++
        (file.types.values.flatMap (fun decl => (showing.typeDecl decl).offers) ++
          (file.functions.values.flatMap (fun decl => (showing.funcDecl decl).offers) ++
            (file.methods.flatMap (fun decl => (showing.funcDecl decl).offers) ++
              (file.vars.values.flatMap (fun decl => (showing.valueDecl decl).offers) ++
                (file.consts.values.flatMap (fun decl => (showing.valueDecl decl).offers) ++
                  file.blanks.flatMap fun decl => (showing.valueDecl decl).offers)))))) := by
  have maps {α : Type} (display : α → Shown α) (map : NameMap α) :
      (nameMap display map).offers = map.values.flatMap fun value => (display value).offers :=
    (List.append_nil _).trans (Shown.offers_mapM display map.values)
  simp only [← Shown.offers_mapM, ← maps]
  rw [← List.append_nil (file.blanks.mapM fun decl => showing.valueDecl decl).offers]
  rfl

/-- **A visitor that leaves alone all that a file shows leaves the file alone.** -/
theorem FixedBy.of_shown (spans : ∀ span ∈ file.spans, visitor.span span = .ok span)
    (names : ∀ entry ∈ file.names, visitor.name entry.1 entry.2 = .ok entry.1) :
    file.FixedBy visitor := by
  have answers : ∀ offer ∈ (showing.file file).offers, visitor.answer offer = .ok offer := by
    intro offer member
    have placed := spans offer.place (List.mem_map_of_mem member)
    cases offer with
    | span span => exact map_eq_ok.mpr ⟨_, placed, rfl⟩
    | name name span =>
      have listed : (name, span) ∈ file.names := List.mem_filterMap.mpr ⟨_, member, rfl⟩
      exact map_eq_ok.mpr ⟨_, named_eq_ok_iff.mpr ⟨names (name, span) listed, placed⟩, rfl⟩
  simp only [offers_file, List.forall_mem_append, List.forall_mem_flatMap] at answers
  obtain ⟨package, imports, types, functions, methods, vars, consts, blanks⟩ := answers
  refine ⟨(tours_named _ _).fixes package,
    fun decl member => (tours_importDecl decl).fixes (imports decl member), fun decl member => ?_⟩
  simp only [SourceFile.decls, List.mem_append, List.mem_map] at member
  rcases member with (⟨decl, held, rfl⟩ | ⟨decl, held, rfl⟩) | ⟨decl, held, rfl⟩
  · exact map_eq_ok.mpr ⟨decl, (tours_typeDecl decl).fixes (types decl held), rfl⟩
  · refine map_eq_ok.mpr ⟨decl, (tours_funcDecl decl).fixes ?_, rfl⟩
    exact held.elim (functions decl) (methods decl)
  · refine map_eq_ok.mpr ⟨decl, (tours_valueDecl decl).fixes ?_, rfl⟩
    exact held.elim (fun held => held.elim (vars decl) (consts decl)) (blanks decl)

/-- A file that was visited shows what the visitor made of what was shown. -/
theorem VisitedTo.yields (visited : file.VisitedTo visitor image) :
    Yields visitor (showing.file file).offers (showing.file image).offers := by
  -- What is put under its new name was visited: putting it there only drops some.
  have listed {α : Type} {visit : α → Except Fault α} {before after : List α}
      (matched : List.Forall₂ (fun value seen => visit value = .ok seen) before after) :
      ∀ value' ∈ after, ∃ value ∈ before, visit value = .ok value' :=
    fun _ member => exists_mem_of_forall₂ matched member
  rw [offers_file, offers_file]
  exact ((tours_named _ _).yields visited.package).append
    ((Yields.flatMap tours_importDecl (listed visited.imports)).append
    ((Yields.flatMap tours_typeDecl fun _ => visited.types.origin).append
    ((Yields.flatMap tours_funcDecl fun _ => visited.functions.origin).append
    ((Yields.flatMap tours_funcDecl (listed visited.methods)).append
    ((Yields.flatMap tours_valueDecl fun _ => visited.vars.origin).append
    ((Yields.flatMap tours_valueDecl fun _ => visited.consts.origin).append
    (Yields.flatMap tours_valueDecl (listed visited.blanks))))))))

/-- **Of a file that was visited, spans come from spans, and names from names with their spans.** -/
theorem VisitedTo.shows (visited : file.VisitedTo visitor image) :
    (∀ span' ∈ image.spans, ∃ span ∈ file.spans, visitor.span span = .ok span') ∧
      ∀ entry' ∈ image.names, ∃ entry ∈ file.names,
        visitor.named entry.1 entry.2 = .ok entry' := by
  refine ⟨fun span' member => ?_, fun entry' member => ?_⟩
  · obtain ⟨offer', shown, rfl⟩ := List.mem_map.mp member
    obtain ⟨offer, held, answered⟩ := visited.yields offer' shown
    exact ⟨offer.place, List.mem_map_of_mem held, place_of_answer answered⟩
  · obtain ⟨offer', shown, named⟩ := List.mem_filterMap.mp member
    obtain ⟨offer, held, answered⟩ := visited.yields offer' shown
    obtain ⟨_, _, rfl, rfl, -⟩ | ⟨name, span, name', span', rfl, rfl, given⟩ :=
      answer_eq_ok_iff.mp answered
    · cases named
    · cases named
      exact ⟨(name, span), List.mem_filterMap.mpr ⟨_, held, rfl⟩, given⟩

end SourceFile

end GoRefactor
