import GoRefactor.Proofs.Edit.Splicing
import GoRefactor.Proofs.Go.Offers
import Mathlib.Data.List.Pairwise

/-!
# Edits undone

Where the replacement of an edit landed, what it replaced can be put back. Edits that each do so
for one of others undo these: the text is the former one, every span returns to where it was, and a
name that gave way to a replacement is spelled as before. What was between the edits is the same in
both texts, so each list reads the other's gaps.
-/

namespace GoRefactor

namespace Edit

/-- Two lists of edits that undo each other, one after the other behind the same gaps. The first
turn one text into another, from one offset on, and the second turn it back, from another. -/
inductive Swaps : Nat → Nat → List Edit → List Edit → String → String → Prop where
  /-- Without edits both texts are the same. -/
  | done (offset offset' : Nat) (text : String) : Swaps offset offset' [] [] text text
  /-- Behind a gap, what one edit puts in place gives way to what the other puts in place. -/
  | edit {offset offset' : Nat} (edit undo : Edit) (gap : String) {rest back : List Edit}
    {text text' : String} (start : edit.span.start = offset + gap.utf8ByteSize)
    (stop : edit.span.stop = edit.span.start + undo.replacement.utf8ByteSize)
    (start' : undo.span.start = offset' + gap.utf8ByteSize)
    (stop' : undo.span.stop = undo.span.start + edit.replacement.utf8ByteSize)
    (others : Swaps edit.span.stop undo.span.stop rest back text text') :
    Swaps offset offset' (edit :: rest) (undo :: back) (gap ++ (undo.replacement ++ text))
      (gap ++ (edit.replacement ++ text'))

/-- The edit covers text and puts text in its place. -/
def Solid (edit : Edit) : Prop := edit.span.start < edit.span.stop ∧ edit.replacement ≠ ""

instance (edit : Edit) : Decidable edit.Solid := inferInstanceAs (Decidable (_ ∧ _))

/-- Text that an edit puts in place has a size. -/
theorem Solid.size_pos {edit : Edit} (solid : edit.Solid) : 0 < edit.replacement.utf8ByteSize :=
  Nat.pos_of_ne_zero fun none => solid.2 (String.utf8ByteSize_eq_zero_iff.mp none)

namespace Swaps

variable {offset offset' : Nat} {edits back : List Edit} {text text' : String}

/-- Either list undoes the other. -/
theorem symm (swaps : Swaps offset offset' edits back text text') :
    Swaps offset' offset back edits text' text := by
  induction swaps with
  | done offset offset' text => exact .done offset' offset text
  | edit edit undo gap start stop start' stop' _ ih =>
    exact .edit undo edit gap start' stop' start stop ih

/-- The edits rewrite the text. -/
theorem rewrites (swaps : Swaps offset offset' edits back text text') :
    Rewrites offset edits text text' := by
  induction swaps with
  | done offset _ text => exact .done offset text
  | edit edit undo gap start stop _ _ _ ih => exact .edit edit gap undo.replacement start stop ih

/-- Edits that are undone by solid ones put text in place, and cover some. -/
theorem solid (swaps : Swaps offset offset' edits back text text')
    (solid : ∀ edit ∈ edits, edit.Solid) : ∀ undo ∈ back, undo.Solid := by
  induction swaps with
  | done => exact List.forall_mem_nil _
  | edit edit undo gap start stop start' stop' _ ih =>
    obtain ⟨first, later⟩ := List.forall_mem_cons.mp solid
    have size := first.size_pos
    refine List.forall_mem_cons.mpr ⟨⟨by omega, fun none => ?_⟩, ih later⟩
    have covers := first.1
    rw [none, String.utf8ByteSize_empty] at stop
    omega

/-- **Where an offset lands, the other edits swallow nothing, and send it back.** -/
theorem returns (swaps : Swaps offset offset' edits back text text')
    (solid : ∀ edit ∈ edits, edit.Solid) {place place' : Nat} (low : offset ≤ place)
    (high : place ≤ offset + text.utf8ByteSize) (clear : Clear edits place)
    (lands : (place' : Int) + offset = place + offset' + gainBefore edits place) :
    Clear back place' ∧ (place : Int) + offset' = place' + offset + gainBefore back place' := by
  induction swaps with
  | done offset offset' text =>
    refine ⟨List.forall_mem_nil _, ?_⟩
    simp only [gainBefore, List.filter_nil, List.map_nil, List.sum_nil] at lands ⊢
    omega
  | @edit offset offset' edit undo gap rest back text text' start stop start' stop' others ih =>
    obtain ⟨first, later⟩ := List.forall_mem_cons.mp solid
    have size := first.size_pos
    have beyond := clear edit List.mem_cons_self
    simp only [String.utf8ByteSize_append] at high
    by_cases before : edit.span.start < place
    · -- Behind the edit, both texts go on as what is left of them.
      have clear' : Clear rest place := fun other member =>
        clear other (List.mem_cons_of_mem _ member)
      rw [gainBefore_cons_of_lt (by omega) before (by omega), gain] at lands
      have low' := (others.rewrites.bounds (by omega) (by omega) clear').1
      obtain ⟨undisturbed, again⟩ := ih later (by omega) (by omega) clear' (by omega)
      refine ⟨List.forall_mem_cons.mpr ⟨by omega, undisturbed⟩, ?_⟩
      rw [gainBefore_cons_of_lt (by omega) (by omega) (by omega), gain]
      omega
    · rw [gainBefore_eq_zero (others.rewrites.behind_cons (by omega) before)] at lands
      have behind : ∀ other ∈ undo :: back, place' ≤ other.span.start ∧
          other.span.start ≤ other.span.stop :=
        others.symm.rewrites.behind_cons (by omega) (by omega)
      refine ⟨fun other member inside => ?_, ?_⟩
      · have known := behind other member
        omega
      · rw [gainBefore_eq_zero behind]
        omega

/-- Each edit covers what the other puts in place, and its ends land where those of the other
are. -/
theorem matched (swaps : Swaps offset offset' edits back text text')
    (solid : ∀ edit ∈ edits, edit.Solid) {front : String} (size : front.utf8ByteSize = offset) :
    List.Forall₂ (fun edit undo => edit.span.slice? (front ++ text) = some undo.replacement ∧
        (undo.span.start : Int) + offset =
          edit.span.start + offset' + gainBefore edits edit.span.start ∧
        (undo.span.stop : Int) + offset =
          edit.span.stop + offset' + gainBefore edits edit.span.stop) edits back := by
  induction swaps generalizing front with
  | done => exact .nil
  | @edit offset offset' edit undo gap rest back text text' start stop start' stop' others ih =>
    obtain ⟨⟨filled, -⟩, later⟩ := List.forall_mem_cons.mp solid
    refine .cons ⟨?_, ?_, ?_⟩ ?_
    · rw [← String.append_assoc]
      exact slice?_of_append (by rw [String.utf8ByteSize_append]; omega) stop
    · rw [gainBefore_eq_zero (others.rewrites.behind_cons (by omega) (by omega))]
      omega
    · rw [gainBefore_cons_of_lt (by omega) filled (Nat.le_refl _), gain,
        gainBefore_eq_zero others.rewrites.behind]
      omega
    · -- What holds behind the edit holds of the whole texts, which have grown by its gain.
      have further := @ih later (front ++ gap ++ undo.replacement) (by
        rw [String.utf8ByteSize_append, String.utf8ByteSize_append]
        omega)
      have both := (List.forall₂_and_left _ _).mpr ⟨fun other member => member, further⟩
      refine both.imp fun other undo' given => ?_
      obtain ⟨member, covers, lands, lands'⟩ := given
      have known := others.rewrites.behind other member
      have filled' := (later other member).1
      rw [gainBefore_cons_of_lt (by omega) (by omega) (by omega),
        gainBefore_cons_of_lt (by omega) (by omega) (by omega), gain]
      refine ⟨?_, by omega, by omega⟩
      simpa only [String.append_assoc] using covers

end Swaps

/-- **Edits that undo those of a text turn the new text back.** -/
theorem Rewrites.swaps {offset offset' : Nat} {edits back : List Edit} {text text' front : String}
    (rewrites : Rewrites offset edits text text')
    (filled : ∀ edit ∈ edits, edit.span.start < edit.span.stop)
    (size : front.utf8ByteSize = offset)
    (matched : List.Forall₂ (fun edit undo =>
      edit.span.slice? (front ++ text) = some undo.replacement ∧
        (undo.span.start : Int) + offset =
          edit.span.start + offset' + gainBefore edits edit.span.start ∧
        undo.span.stop = undo.span.start + edit.replacement.utf8ByteSize) edits back) :
    Swaps offset offset' edits back text text' := by
  induction rewrites generalizing front back offset' with
  | done offset text =>
    cases matched
    exact .done offset offset' text
  | @edit offset edit gap covered rest text text' start stop others ih =>
    obtain ⟨first, later⟩ := List.forall_mem_cons.mp filled
    cases matched with
    | @cons _ undo _ back one further =>
      obtain ⟨covers, lands, stop'⟩ := one
      rw [← String.append_assoc, slice?_of_append (by rw [String.utf8ByteSize_append]; omega) stop,
        Option.some_inj] at covers
      subst covers
      rw [gainBefore_eq_zero (others.behind_cons (by omega) (by omega))] at lands
      have size' : (front ++ gap ++ undo.replacement).utf8ByteSize = edit.span.stop := by
        rw [String.utf8ByteSize_append, String.utf8ByteSize_append]
        omega
      refine .edit edit undo gap start stop (by omega) stop' (ih later size' ?_)
      · have both := (List.forall₂_and_left _ _).mpr ⟨fun other member => member, further⟩
        refine both.imp fun other undo' ⟨member, covers, lands', stop''⟩ => ?_
        have known := others.behind other member
        have filled' := later other member
        rw [gainBefore_cons_of_lt (by omega) (by omega) (by omega), gain] at lands'
        refine ⟨?_, by omega, stop''⟩
        simpa only [String.append_assoc] using covers

section Files

variable {edits back : List Edit} {content content' : String}

/-- **A span whose ends are not swallowed is moved, and moved back.** -/
theorem Swaps.exists_returned (swaps : Swaps 0 0 edits back content content')
    (solid : ∀ edit ∈ edits, edit.Solid) (small : content.utf8ByteSize < 2 ^ 63)
    (small' : content'.utf8ByteSize < 2 ^ 63) {span : Span} (order : span.start ≤ span.stop)
    (inside : span.stop ≤ content.utf8ByteSize) (clear : Clear edits span.start)
    (clear' : Clear edits span.stop) :
    ∃ moved, (remap edits).span span = .ok moved ∧ (remap back).span moved = .ok span := by
  obtain ⟨start, stop, moves, lands, lands', upright⟩ :=
    swaps.rewrites.exists_moved small' order inside clear clear'
  obtain ⟨again, start_eq⟩ := swaps.returns solid (Nat.zero_le _) (by omega) clear
    (show (start : Int) + (0 : Nat) = _ by omega)
  obtain ⟨again', stop_eq⟩ := swaps.returns solid (Nat.zero_le _) (by omega) clear'
    (show (stop : Int) + (0 : Nat) = _ by omega)
  obtain ⟨-, high⟩ := swaps.rewrites.bounds (Nat.zero_le _) (by omega) clear'
  obtain ⟨first, last, moves', landed, landed', -⟩ :=
    @Rewrites.exists_moved back content' content ⟨start, stop⟩ swaps.symm.rewrites small upright
      (by simp only; omega) again again'
  refine ⟨⟨start, stop⟩, moves, moves'.trans ?_⟩
  simp only at landed landed'
  have same : first = span.start := by omega
  have same' : last = span.stop := by omega
  rw [same, same']

/-- Edits that are apart and cover text swallow no end of each other. -/
theorem clear_of_apart (filled : ∀ edit ∈ edits, edit.span.start < edit.span.stop)
    (apart : edits.Pairwise fun earlier later => earlier.span.stop ≤ later.span.start) :
    ∀ edit ∈ edits, Clear edits edit.span.start ∧ Clear edits edit.span.stop := by
  let beside (one other : Edit) : Prop :=
    one.span.stop ≤ other.span.start ∨ other.span.stop ≤ one.span.start
  have symmetric : Std.Symm beside := ⟨fun _ _ => Or.symm⟩
  have sides : ∀ edit ∈ edits, ∀ other ∈ edits, edit ≠ other → beside edit other :=
    fun edit member other member' different =>
      List.Pairwise.forall (R := beside) (apart.imp Or.inl) member member' different
  have each : ∀ edit ∈ edits, ∀ other ∈ edits,
      ¬(other.span.start < edit.span.start ∧ edit.span.start < other.span.stop) ∧
        ¬(other.span.start < edit.span.stop ∧ edit.span.stop < other.span.stop) := by
    intro edit member other member'
    by_cases same : edit = other
    · rw [same]
      omega
    · have upright := filled edit member
      have apart : edit.span.stop ≤ other.span.start ∨ other.span.stop ≤ edit.span.start :=
        sides edit member other member' same
      omega
  exact fun edit member => ⟨fun other member' => (each edit member other member').1,
    fun other member' => (each edit member other member').2⟩

/-- The text that replaces what stands at a span is that of an edit that covers it. -/
theorem exists_of_replacementAt {span : Span} {text : String}
    (replaced : replacementAt edits span = some text) :
    ∃ edit ∈ edits, edit.span = span ∧ edit.replacement = text := by
  obtain ⟨edit, found, same⟩ := Option.map_eq_some_iff.mp replaced
  have passed := List.find?_some found
  rw [Bool.and_eq_true, beq_iff_eq] at passed
  exact ⟨edit, List.mem_of_find?_eq_some found, passed.2, same⟩

/-- Where nothing replaces what stands at a span, no edit covers it that covers text. -/
theorem ne_of_replacementAt {span : Span} (kept : replacementAt edits span = none) {edit : Edit}
    (member : edit ∈ edits) (filled : edit.span.start < edit.span.stop) : edit.span ≠ span := by
  intro same
  refine List.find?_eq_none.mp (Option.map_eq_none_iff.mp kept) edit member ?_
  simp [Span.isEmpty, same ▸ Nat.ne_of_lt filled, same]

/-- Each edit covers what the other puts back, and both are moved to each other. -/
theorem Swaps.exchanged (swaps : Swaps 0 0 edits back content content')
    (solid : ∀ edit ∈ edits, edit.Solid) (small : content.utf8ByteSize < 2 ^ 63)
    (small' : content'.utf8ByteSize < 2 ^ 63) :
    List.Forall₂ (fun edit undo => edit.span.slice? content = some undo.replacement ∧
      (remap edits).span edit.span = .ok undo.span ∧
      (remap back).span undo.span = .ok edit.span) edits back := by
  have clear := clear_of_apart (fun edit member => (solid edit member).1) swaps.rewrites.apart
  have matched := swaps.matched solid String.utf8ByteSize_empty
  rw [String.empty_append] at matched
  have both := (List.forall₂_and_left _ _).mpr ⟨fun edit member => member, matched⟩
  refine both.imp fun edit undo ⟨member, covers, lands, lands'⟩ => ?_
  obtain ⟨order, front, rest, whole, start, length⟩ := Span.slice?_eq_some_iff.mp covers
  have inside : edit.span.stop ≤ content.utf8ByteSize := by
    rw [whole, String.utf8ByteSize_append, String.utf8ByteSize_append]
    omega
  obtain ⟨clear, clear'⟩ := clear edit member
  obtain ⟨moved, moves, returns⟩ :=
    swaps.exists_returned solid small small' order inside clear clear'
  obtain ⟨first, last, moves', landed, landed', -⟩ :=
    swaps.rewrites.exists_moved small' order inside clear clear'
  have here : moved = undo.span := by
    cases moves.symm.trans moves'
    have same : first = undo.span.start := by omega
    have same' : last = undo.span.stop := by omega
    rw [same, same']
  rw [here] at moves returns
  exact ⟨covers, moves, returns⟩

/-- What edits of a file have to leave alone to be undone. -/
structure Sparing (edits : List Edit) (file : SourceFile) : Prop where
  /-- The edits put text in place of text. -/
  solid : ∀ edit ∈ edits, edit.Solid
  /-- Spans are in order and inside the text. -/
  upright : ∀ span ∈ file.spans, span.start ≤ span.stop ∧ span.stop ≤ file.content.utf8ByteSize
  /-- No span starts or ends inside what an edit replaces. -/
  clear : ∀ span ∈ file.spans, Clear edits span.start ∧ Clear edits span.stop
  /-- Names stand under their spans. -/
  addressed : ∀ entry ∈ file.names, file.text entry.2 = entry.1

variable {file image : SourceFile}

/-- **What the edits make of spans and names is undone.** -/
theorem Sparing.fixedBy (sparing : Sparing edits file)
    (swaps : Swaps 0 0 edits back file.content content')
    (small : file.content.utf8ByteSize < 2 ^ 63) (small' : content'.utf8ByteSize < 2 ^ 63) :
    file.FixedBy ((remap edits).andThen (remap back)) := by
  have exchanged := swaps.exchanged sparing.solid small small'
  have returned : ∀ span ∈ file.spans, ∃ moved, (remap edits).span span = .ok moved ∧
      (remap back).span moved = .ok span := by
    intro span member
    obtain ⟨order, inside⟩ := sparing.upright span member
    obtain ⟨clear, clear'⟩ := sparing.clear span member
    exact swaps.exists_returned sparing.solid small small' order inside clear clear'
  refine .of_shown (fun span member => ?_) fun ⟨name, span⟩ member => ?_
  · obtain ⟨moved, moves, returns⟩ := returned span member
    exact (SpanVisitor.span_andThen moves).trans returns
  · obtain ⟨moved, moves, returns⟩ := returned span (SourceFile.mem_spans_of_mem_names member)
    have renamed := SpanVisitor.named_eq_ok_iff.mpr ⟨remap_name edits name span, moves⟩
    refine (SpanVisitor.named_eq_ok_iff.mp ((SpanVisitor.named_andThen renamed).trans
      (SpanVisitor.named_eq_ok_iff.mpr ⟨?_, returns⟩))).1
    rw [remap_name, Except.ok.injEq]
    cases again : replacementAt back moved with
    | some text =>
      -- What is put back there was covered by the edit that is undone.
      obtain ⟨undo, member', here, rfl⟩ := exists_of_replacementAt again
      obtain ⟨edit, -, covers, -, returns'⟩ := exists_mem_of_forall₂ exchanged member'
      rw [here, returns] at returns'
      rw [← Except.ok.inj returns'] at covers
      have stands := sparing.addressed _ member
      rw [SourceFile.text, covers] at stands
      exact stands
    | none =>
      -- Nothing is put back there, so nothing gave way.
      cases first : replacementAt edits span with
      | none => rfl
      | some text =>
        obtain ⟨edit, member', here, -⟩ := exists_of_replacementAt first
        obtain ⟨undo, listed, -, moves', -⟩ := exists_mem_of_forall₂ exchanged.flip member'
        rw [here, moves] at moves'
        exact absurd (Except.ok.inj moves').symm
          (ne_of_replacementAt again listed (swaps.solid sparing.solid undo listed).1)

/-- **Edits of a file are undone by edits that undo each of them.** -/
theorem Sparing.applyToFile_back (sparing : Sparing edits file) (keyed : file.Keyed)
    (kept : file.KeptApart (remap edits)) (swaps : Swaps 0 0 edits back file.content image.content)
    (small : file.content.utf8ByteSize < 2 ^ 63) (small' : image.content.utf8ByteSize < 2 ^ 63)
    (applied : applyToFile edits file = .ok image) : applyToFile back image = .ok file := by
  obtain ⟨visited, path, -, isTest, modified⟩ := applyToFile_eq_ok.mp applied
  have returned := visited.back (sparing.fixedBy swaps small small') keyed kept
  have spliced := swaps.symm.rewrites.spliceAll_eq String.utf8ByteSize_empty
  rw [String.empty_append, String.empty_append] at spliced
  exact applyToFile_eq_ok.mpr ⟨returned, path.symm, spliced.symm, isTest.symm, modified.symm⟩

end Files

end Edit

end GoRefactor
