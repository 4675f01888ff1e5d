import GoRefactor.Proofs.Transform.AppliedEdits

/-!
# Moved spans

Edits of a file move the spans of its declarations. A span that the edits leave alone, or inside
which they are made, covers afterwards what it covered before, with these edits made; so names stay
under their spans, and a name that an edit replaces becomes the replacement.
-/

namespace GoRefactor

namespace Edit

variable {edits : List Edit} {span : Span}

/-- Each edit replaces what the span covers, or leaves the span alone and is not made at its
start. -/
def Regard (edits : List Edit) (span : Span) : Prop :=
  ∀ edit ∈ edits, edit.span = span ∨ (edit.Beside span ∧ ¬edit.InsertsAt span)

instance (edit : Edit) (span : Span) : Decidable (edit.InsertsAt span) :=
  inferInstanceAs (Decidable (_ = _))

instance (edits : List Edit) (span : Span) : Decidable (Regard edits span) :=
  inferInstanceAs (Decidable (∀ edit ∈ edits, _))

/-- Edits that regard a span respect it. -/
theorem Regard.respect (regard : Regard edits span) : Respect edits span := by
  intro edit member
  rcases regard edit member with same | ⟨beside, apart⟩
  · refine ⟨Or.inr ?_, fun filled inserts => ?_⟩
    · simp [Span.contains, same]
    · have point := same.symm.trans inserts
      rw [point] at filled
      exact Nat.lt_irrefl _ filled
  · exact ⟨Or.inl beside, fun _ => apart⟩

/-- Edits of one filled span that are apart are one edit. -/
theorem eq_singleton_of_apart (filled : span.start < span.stop)
    (apart : edits.Pairwise fun earlier later => earlier.span.stop ≤ later.span.start)
    (same : ∀ edit ∈ edits, edit.span = span) {edit : Edit} (member : edit ∈ edits) :
    edits = [edit] := by
  cases edits with
  | nil => cases member
  | cons first rest =>
    cases rest with
    | nil => rw [List.mem_singleton.mp member]
    | cons second others =>
      have ends := (List.pairwise_cons.mp apart).1 second List.mem_cons_self
      rw [same first List.mem_cons_self,
        same second (List.mem_cons_of_mem _ List.mem_cons_self)] at ends
      omega

/-- Among edits that regard a filled span, those inside it are those of the span itself. -/
theorem Regard.inside_iff (regard : Regard edits span) (filled : span.start < span.stop)
    {edit : Edit} (member : edit ∈ edits) : edit.Inside span ↔ edit.span = span := by
  constructor
  · rintro ⟨-, crosses⟩
    exact (regard edit member).resolve_right fun ⟨beside, _⟩ => crosses beside
  · intro same
    rw [Inside, Beside, same]
    simp only [Span.contains, Nat.le_refl, decide_true, Bool.and_self, true_and]
    omega

/-- An edit that replaces what a span covers is the only one inside it. -/
theorem Regard.filter_eq_singleton (regard : Regard edits span) (filled : span.start < span.stop)
    (apart : edits.Pairwise fun earlier later => earlier.span.stop ≤ later.span.start)
    {edit : Edit} (member : edit ∈ edits) (same : edit.span = span) :
    (edits.filter fun edit => edit.Inside span) = [edit] ∧
      replacementAt edits span = some edit.replacement := by
  have alone {other : Edit} (listed : other ∈ edits) (same' : other.span = span) :
      other = edit := by
    have one := eq_singleton_of_apart filled (List.Pairwise.filter (·.span = span) apart)
      (fun edit inside => of_decide_eq_true (List.mem_filter.mp inside).2)
      (List.mem_filter.mpr ⟨member, decide_eq_true same⟩)
    have inside : other ∈ edits.filter (·.span = span) :=
      List.mem_filter.mpr ⟨listed, decide_eq_true same'⟩
    rw [one] at inside
    exact List.mem_singleton.mp inside
  constructor
  · refine eq_singleton_of_apart filled (List.Pairwise.filter _ apart) (fun other inside => ?_) ?_
    · obtain ⟨listed, within⟩ := List.mem_filter.mp inside
      exact (regard.inside_iff filled listed).mp (of_decide_eq_true within)
    · exact List.mem_filter.mpr
        ⟨member, decide_eq_true ((regard.inside_iff filled member).mpr same)⟩
  · have solid : (!edit.span.isEmpty && edit.span == span) = true := by
      simp [same, Span.isEmpty, Nat.ne_of_lt filled]
    have found : (edits.find? fun edit => !edit.span.isEmpty && edit.span == span) = some edit := by
      have exists' : (edits.find? fun edit => !edit.span.isEmpty && edit.span == span).isSome :=
        List.find?_isSome.mpr ⟨edit, member, solid⟩
      obtain ⟨other, found⟩ := Option.isSome_iff_exists.mp exists'
      have passed := List.find?_some found
      rw [Bool.and_eq_true, beq_iff_eq] at passed
      rw [found, alone (List.mem_of_find?_eq_some found) passed.2]
    rw [replacementAt, found, Option.map_some]

/-- Where no edit replaces what a span covers, none is inside it. -/
theorem Regard.filter_eq_nil (regard : Regard edits span)
    (kept : ∀ edit ∈ edits, edit.span = span → span.isEmpty = true) :
    (edits.filter fun edit => edit.Inside span) = [] ∧ replacementAt edits span = none := by
  constructor
  · refine List.filter_eq_nil_iff.mpr fun edit member within => ?_
    obtain ⟨-, crosses⟩ := of_decide_eq_true within
    rcases regard edit member with same | ⟨beside, -⟩
    · have empty := eq_of_beq (kept edit member same)
      refine crosses (Or.inl ?_)
      rw [same, empty]
    · exact crosses beside
  · refine Option.map_eq_none_iff.mpr (List.find?_eq_none.mpr fun edit member passed => ?_)
    rw [Bool.and_eq_true, beq_iff_eq] at passed
    obtain ⟨filled, same⟩ := passed
    rw [same, kept edit member same] at filled
    cases filled

/-- What edits of a file do to its spans and names. -/
structure Moves (edits : List Edit) (file image : SourceFile) : Prop where
  /-- A span that the edits respect moves to its text, with those inside it made. -/
  texts : ∀ span ∈ file.spans, Respect edits span →
    ∃ moved, (remap edits).span span = .ok moved ∧ moved.slice? image.content =
      rewritten? file.content (edits.filter fun edit => edit.Inside span) span
  /-- Every span of the new file is a moved one. -/
  spans : ∀ moved ∈ image.spans, ∃ span ∈ file.spans, (remap edits).span span = .ok moved
  /-- Where names stand under their spans and the edits regard these, names stand under their spans
  afterwards, and those that were replaced are the replacements. -/
  names : (∀ entry ∈ file.names, file.text entry.2 = entry.1 ∧ Regard edits entry.2) →
    ∀ entry' ∈ image.names, image.text entry'.2 = entry'.1 ∧
      ∃ entry ∈ file.names, (remap edits).span entry.2 = .ok entry'.2 ∧
        (∀ edit ∈ edits, edit.span = entry.2 → entry.2.isEmpty = false →
          entry'.1 = edit.replacement) ∧
        ((∀ edit ∈ edits, edit.span = entry.2 → entry.2.isEmpty = true) → entry'.1 = entry.1)

/-- At a span that the edit itself covers stands the replacement. -/
theorem rewritten?_self {edit : Edit} {content : String} (cuts : edit.Cuts content) :
    rewritten? content [edit] edit.span = some edit.replacement := by
  obtain ⟨front, middle, back, rfl, start, stop⟩ := cuts
  have before : Span.slice? ⟨edit.span.start, edit.span.start⟩ (front ++ middle ++ back) =
      some "" := by
    refine Span.slice?_eq_some_iff.mpr ⟨Nat.le_refl _, front, middle ++ back, ?_, start, ?_⟩
    · rw [String.append_empty, String.append_assoc]
    · rw [Nat.sub_self, String.utf8ByteSize_empty]
  have behind : Span.slice? ⟨edit.span.stop, edit.span.stop⟩ (front ++ middle ++ back) =
      some "" := by
    refine Span.slice?_eq_some_iff.mpr ⟨Nat.le_refl _, front ++ middle, back, ?_, ?_, ?_⟩
    · rw [String.append_empty]
    · rw [String.utf8ByteSize_append, stop]
    · rw [Nat.sub_self, String.utf8ByteSize_empty]
  simp only [rewritten?, before, behind, Option.bind_eq_bind, Option.bind_some, Option.pure_def,
    String.empty_append, String.append_empty]

variable {file moved : SourceFile}

/-- **Edits that are made move the spans and names of their file.** -/
theorem moves_of_applyToFile (cuts : ∀ edit ∈ edits, edit.Cuts file.content)
    (apart : edits.Pairwise fun earlier later => earlier.span.stop ≤ later.span.start)
    (inBounds : ∀ span ∈ file.spans, span.start ≤ span.stop ∧
      span.stop ≤ file.content.utf8ByteSize)
    (applied : applyToFile edits file = .ok moved)
    (small : moved.content.utf8ByteSize < 2 ^ 63) : Moves edits file moved.flagged := by
  obtain ⟨visited, -, content, -⟩ := applyToFile_eq_ok.mp applied
  obtain ⟨text, rewrites, spliced, -⟩ := exists_rewrites cuts apart
  rw [spliced] at content
  rw [content] at small
  have texts : ∀ span ∈ file.spans, Respect edits span →
      ∃ place, (remap edits).span span = .ok place ∧ place.slice? text =
        rewritten? file.content (edits.filter fun edit => edit.Inside span) span :=
    fun span member respect =>
      slice?_moved rewrites small (inBounds span member).1 (inBounds span member).2 respect
  obtain ⟨spans, names⟩ := visited.shows
  refine ⟨content ▸ texts, spans, fun named entry' member => ?_⟩
  obtain ⟨⟨name, span⟩, inside, given⟩ := names entry' member
  obtain ⟨stands, regard⟩ := named _ inside
  obtain ⟨renamed, placed⟩ := SpanVisitor.named_eq_ok_iff.mp given
  rw [remap_name, Except.ok.injEq] at renamed
  have listed := SourceFile.mem_spans_of_mem_names inside
  obtain ⟨order, -⟩ := inBounds span listed
  have filled (solid : span.isEmpty = false) : span.start < span.stop :=
    Nat.lt_of_le_of_ne order fun same => by simp [Span.isEmpty, same] at solid
  have replaced : ∀ edit ∈ edits, edit.span = span → span.isEmpty = false →
      entry'.1 = edit.replacement := by
    intro edit held same solid
    rw [← renamed, (regard.filter_eq_singleton (filled solid) apart held same).2]
    rfl
  have kept (none : ∀ edit ∈ edits, edit.span = span → span.isEmpty = true) :
      entry'.1 = name := by
    rw [← renamed, (regard.filter_eq_nil none).2]
    rfl
  refine ⟨?_, (name, span), inside, placed, replaced, kept⟩
  obtain ⟨place, placed', reads⟩ := texts span listed regard.respect
  cases placed.symm.trans placed'
  have reading : moved.flagged.text entry'.2 = (entry'.2.slice? text).getD "" := by
    rw [← content]
    rfl
  rw [reading, reads]
  by_cases none : ∀ edit ∈ edits, edit.span = span → span.isEmpty = true
  · rw [(regard.filter_eq_nil none).1, kept none]
    exact stands
  · push Not at none
    obtain ⟨edit, held, same, solid⟩ := none
    replace solid := Bool.eq_false_iff.mpr solid
    rw [(regard.filter_eq_singleton (filled solid) apart held same).1, ← same,
      rewritten?_self (cuts edit held), replaced edit held same solid]
    rfl

/-- Without edits spans and names stay where they are. -/
theorem moves_refl (inBounds : ∀ span ∈ file.spans, span.start ≤ span.stop ∧
      span.stop ≤ file.content.utf8ByteSize)
    (small : file.content.utf8ByteSize < 2 ^ 63) : Moves [] file file := by
  have stays : ∀ span ∈ file.spans, (remap []).span span = .ok span := by
    intro span member
    obtain ⟨order, inside⟩ := inBounds span member
    obtain ⟨start, stop, moved, lands, lands', -⟩ := (Rewrites.done 0 file.content).exists_moved
      small order inside (List.forall_mem_nil _) (List.forall_mem_nil _)
    have none (offset : Nat) : gainBefore [] offset = 0 := rfl
    rw [none, Int.add_zero, Int.ofNat_inj] at lands lands'
    rw [moved, lands, lands']
  refine ⟨fun span member _ => ⟨span, stays span member, rfl⟩,
    fun span member => ⟨span, member, stays span member⟩, fun named entry member => ?_⟩
  exact ⟨(named entry member).1, entry, member, stays _ (SourceFile.mem_spans_of_mem_names member),
    List.forall_mem_nil _, fun _ => rfl⟩

end Edit

namespace Module

variable {module edited : Module} {edits : List Edit} {paths : List String}

/-- **Accepted edits move the spans and names of every file to where its text went.** -/
theorem applyEdits_moves {path : String} {file : SourceFile}
    (accepted : (module.applyEdits edits).run = .ok (.ok (edited, paths)))
    (held : module.file? path = some file)
    (inBounds : ∀ span ∈ file.spans, span.start ≤ span.stop ∧
      span.stop ≤ file.content.utf8ByteSize) :
    ∃ image, edited.file? path = some image ∧ (image.content.utf8ByteSize < 2 ^ 63 →
      Edit.Moves (Edit.own (Edit.ordered edits) path) file image) := by
  obtain ⟨rfl, clear, fits, spliced, done, rfl⟩ := applyEdits_eq_ok.mp accepted
  obtain ⟨apart, each⟩ := checked_of_fits clear fits
  obtain ⟨keeps, turns⟩ := file?_of_editFiles (Edit.nodup_files_arrange edits) done held
  rw [← Edit.arrange_eq_ordered]
  by_cases listed : path ∈ dropRepeats ((Edit.arrange edits).map (·.file))
  · obtain ⟨moved, applied, held'⟩ := turns listed
    refine ⟨moved.flagged, held', fun small => ?_⟩
    refine Edit.moves_of_applyToFile (fun edit member => ?_) (apart.of_file path) inBounds applied
      small
    obtain ⟨member, here⟩ := List.mem_filter.mp member
    obtain ⟨found, held'', cuts⟩ := each edit member
    rw [eq_of_beq here, held] at held''
    cases held''
    exact cuts
  · have none : Edit.own (Edit.arrange edits) path = [] := by
      refine List.filter_eq_nil_iff.mpr fun edit member here => listed ?_
      exact mem_dropRepeats.mpr (List.mem_map.mpr ⟨edit, member, eq_of_beq here⟩)
    rw [none]
    exact ⟨file, keeps listed, fun small => Edit.moves_refl inBounds small⟩

/-- A longer name stands under its span, though an insertion touches it, and the others stay. -/
theorem applyEdits_moves_limits :
    ∃ module edited paths file image, Module.ofSources "m" limitSources = .ok module ∧
      (module.applyEdits limitEdits).run = .ok (.ok (edited, paths)) ∧
      module.file? "p.go" = some file ∧ edited.file? "p.go" = some image ∧
      Edit.Moves (Edit.own (Edit.ordered limitEdits) "p.go") file image ∧
      (∀ entry ∈ image.names, image.text entry.2 = entry.1) ∧
      ("Maximum", ⟨15, 22⟩) ∈ image.names := by
  have evaluated : checkOk (Module.ofSources "m" limitSources) (fun module =>
      (module.file? "p.go").any (fun file =>
        decide (∀ span ∈ file.spans, span.start ≤ span.stop ∧
          span.stop ≤ file.content.utf8ByteSize) &&
        decide (∀ entry ∈ file.names, file.text entry.2 = entry.1 ∧
          Edit.Regard (Edit.own (Edit.arrange limitEdits) "p.go") entry.2)) &&
      decide (∀ edit ∈ limitEdits, ((module.file? edit.file).bind fun file =>
        edit.span.slice? file.content) = some edit.replaced) &&
      checkOk (module.applyPlanned limitEdits).run fun ending =>
        checkOk ending fun result => (result.1.file? "p.go").any fun image =>
          decide (image.content.utf8ByteSize < 2 ^ 63) &&
          decide (("Maximum", ⟨15, 22⟩) ∈ image.names)) = true := by
    decide +kernel
  obtain ⟨module, loaded, checked⟩ := exists_of_checkOk evaluated
  obtain ⟨checked, after⟩ := Bool.and_eq_true_iff.mp checked
  obtain ⟨before, covers⟩ := Bool.and_eq_true_iff.mp checked
  obtain ⟨file, held, before⟩ := (Option.any_eq_true _ _).mp before
  obtain ⟨inBounds, regarded⟩ := Bool.and_eq_true_iff.mp before
  obtain ⟨ending, ran, ended⟩ := exists_of_checkOk after
  obtain ⟨⟨edited, paths⟩, rfl, changed⟩ := exists_of_checkOk ended
  rw [← applyEdits_eq_applyPlanned (planned_of_slices limitEdits_hashed
    (of_decide_eq_true covers))] at ran
  obtain ⟨image, held', facts⟩ := (Option.any_eq_true _ _).mp changed
  obtain ⟨small, listed⟩ := Bool.and_eq_true_iff.mp facts
  have regarded := of_decide_eq_true regarded
  rw [Edit.arrange_eq_ordered] at regarded
  obtain ⟨image', found, moves⟩ := applyEdits_moves ran held (of_decide_eq_true inBounds)
  cases held'.symm.trans found
  have moves := moves (of_decide_eq_true small)
  exact ⟨module, edited, paths, file, image, loaded, ran, held, held', moves,
    fun entry member => (moves.names regarded entry member).1, of_decide_eq_true listed⟩

end Module

end GoRefactor
