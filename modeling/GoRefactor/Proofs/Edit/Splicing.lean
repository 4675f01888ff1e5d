import GoRefactor.Proofs.Edit.Arranged
import Mathlib.Algebra.BigOperators.Group.List.Basic
import Mathlib.Algebra.Ring.Int.Defs
import Mathlib.Data.Nat.Cast.Basic

/-!
# Splicing from the front

Edits are made in place, from the last to the first. What they give can be read from the front: the
text up to the first edit, its replacement, the text up to the next edit, and so on. Here both are
shown to be the same, and every offset that no edit swallows is found again: the text in front of
it has grown by what the edits there gained.
-/

namespace GoRefactor

/-- The text can be cut at the offset. -/
def CutAt (content : String) (offset : Nat) : Prop :=
  ∃ front back, content = front ++ back ∧ front.utf8ByteSize = offset

/-- Up to the end of its first part a text can be cut where that part can. -/
theorem cutAt_append_left {front back : String} {offset : Nat}
    (within : offset ≤ front.utf8ByteSize) : CutAt (front ++ back) offset ↔ CutAt front offset := by
  constructor
  · rintro ⟨first, rest, whole, size⟩
    obtain ⟨between, longer⟩ := Edit.begins_of_size_le whole.symm (size ▸ within)
    exact ⟨first, between, longer, size⟩
  · rintro ⟨first, rest, rfl, size⟩
    exact ⟨first, rest ++ back, String.append_assoc, size⟩

/-- Behind its first part a text can be cut where the rest can. -/
theorem cutAt_append_right {front back : String} {offset : Nat}
    (beyond : front.utf8ByteSize ≤ offset) :
    CutAt (front ++ back) offset ↔ CutAt back (offset - front.utf8ByteSize) := by
  constructor
  · rintro ⟨first, rest, whole, size⟩
    obtain ⟨between, rfl⟩ := Edit.begins_of_size_le whole (size ▸ beyond)
    rw [String.append_assoc] at whole
    rw [String.utf8ByteSize_append] at size
    exact ⟨between, rest, (String.append_right_inj front).mp whole, by omega⟩
  · rintro ⟨first, rest, rfl, size⟩
    refine ⟨front ++ first, rest, String.append_assoc.symm, ?_⟩
    rw [String.utf8ByteSize_append]
    omega

/-- A span covers a text exactly if it is in order and the text can be cut at both ends. -/
theorem Span.slice?_isSome_iff {span : Span} {content : String} :
    (∃ text, span.slice? content = some text) ↔
      span.start ≤ span.stop ∧ CutAt content span.start ∧ CutAt content span.stop := by
  simp only [Span.slice?_eq_some_iff]
  constructor
  · rintro ⟨text, order, front, back, rfl, start, length⟩
    refine ⟨order, ⟨front, text ++ back, String.append_assoc, start⟩, front ++ text, back, rfl, ?_⟩
    rw [String.utf8ByteSize_append]
    omega
  · rintro ⟨order, ⟨front, rest, whole, start⟩, before, back, whole', stop⟩
    obtain ⟨text, rfl⟩ := Edit.begins_of_size_le (whole.symm.trans whole') (by omega)
    rw [String.utf8ByteSize_append] at stop
    exact ⟨text, order, front, back, whole', start, by omega⟩

namespace Edit

/-- The text at a span with edits inside it made, read from the front: the gap up to the first edit,
its replacement, and so on from where the edit ends. -/
def rewritten? (content : String) : List Edit → Span → Option String
  | [], span => span.slice? content
  | edit :: rest, span => do
    let gap ← Span.slice? ⟨span.start, edit.span.start⟩ content
    let behind ← rewritten? content rest ⟨edit.span.stop, span.stop⟩
    return gap ++ edit.replacement ++ behind

/-- Edits of the text from an offset on, the first one first, turn it into another text. -/
inductive Rewrites : Nat → List Edit → String → String → Prop where
  /-- Without edits the text stays. -/
  | done (offset : Nat) (text : String) : Rewrites offset [] text text
  /-- Behind a gap, what the first edit covers gives way. -/
  | edit {offset : Nat} (edit : Edit) (gap covered : String) {rest : List Edit}
    {text text' : String} (start : edit.span.start = offset + gap.utf8ByteSize)
    (stop : edit.span.stop = edit.span.start + covered.utf8ByteSize)
    (others : Rewrites edit.span.stop rest text text') :
    Rewrites offset (edit :: rest) (gap ++ (covered ++ text)) (gap ++ (edit.replacement ++ text'))

namespace Rewrites

variable {offset : Nat} {edits : List Edit} {text text' : String}

/-- Edits that are apart and cut a text rewrite it from any cut in front of them. -/
theorem of_apart {content front : String} (whole : content = front ++ text)
    (size : front.utf8ByteSize = offset) (cuts : ∀ edit ∈ edits, edit.Cuts content)
    (apart : edits.Pairwise fun earlier later => earlier.span.stop ≤ later.span.start)
    (behind : ∀ edit ∈ edits, offset ≤ edit.span.start) :
    ∃ text', Rewrites offset edits text text' := by
  induction edits generalizing front text offset with
  | nil => exact ⟨text, .done offset text⟩
  | cons edit rest ih =>
    obtain ⟨⟨before, covered, after, whole', start, stop⟩, cuts'⟩ := List.forall_mem_cons.mp cuts
    obtain ⟨first, apart'⟩ := List.pairwise_cons.mp apart
    have near := behind edit List.mem_cons_self
    rw [String.append_assoc] at whole'
    obtain ⟨gap, rfl⟩ := begins_of_size_le (whole.symm.trans whole') (by omega)
    rw [String.utf8ByteSize_append] at start stop
    have text_eq : text = gap ++ (covered ++ after) :=
      (String.append_right_inj front).mp
        (whole.symm.trans (whole'.trans String.append_assoc))
    obtain ⟨after', others⟩ := ih
      (whole'.trans String.append_assoc.symm) (by rw [String.utf8ByteSize_append,
        String.utf8ByteSize_append, stop]) cuts' apart' first
    rw [text_eq]
    exact ⟨_, .edit edit gap covered (by omega) (by omega) others⟩

/-- Edits stand in order behind the offset. -/
theorem behind (rewrites : Rewrites offset edits text text') :
    ∀ edit ∈ edits, offset ≤ edit.span.start ∧ edit.span.start ≤ edit.span.stop := by
  induction rewrites with
  | done => exact List.forall_mem_nil _
  | edit edit gap covered start stop others ih =>
    refine List.forall_mem_cons.mpr ⟨by omega, fun later member => ?_⟩
    have known := ih later member
    omega

/-- An edit in front of others stands in order with them. -/
theorem behind_cons {edit : Edit} (others : Rewrites edit.span.stop edits text text')
    (order : edit.span.start ≤ edit.span.stop) {place : Nat} (before : ¬edit.span.start < place) :
    ∀ other ∈ edit :: edits, place ≤ other.span.start ∧ other.span.start ≤ other.span.stop := by
  refine List.forall_mem_cons.mpr ⟨by omega, fun other member => ?_⟩
  have further := others.behind other member
  omega

/-- Edits end before those behind them start. -/
theorem apart (rewrites : Rewrites offset edits text text') :
    edits.Pairwise fun earlier later => earlier.span.stop ≤ later.span.start := by
  induction rewrites with
  | done => exact .nil
  | edit edit gap covered start stop others ih =>
    exact List.pairwise_cons.mpr ⟨fun later member => (others.behind later member).1, ih⟩

/-- **Made in place from the last to the first, the edits give the same text.** -/
theorem spliceAll_eq (rewrites : Rewrites offset edits text text') {front : String}
    (size : front.utf8ByteSize = offset) : spliceAll edits (front ++ text) = front ++ text' := by
  induction rewrites generalizing front with
  | done => rfl
  | @edit offset edit gap covered rest text text' start stop others ih =>
    have before := @ih (front ++ gap ++ covered) (by
      rw [String.utf8ByteSize_append, String.utf8ByteSize_append]
      omega)
    have spliced := edit.splice_eq before
      (by rw [String.utf8ByteSize_append]; omega) (by rw [String.utf8ByteSize_append]; omega)
    simp only [String.append_assoc] at before spliced ⊢
    rw [spliceAll, List.foldr_cons]
    exact spliced

/-- Read from the front, the edits give the same text. -/
theorem rewritten?_eq (rewrites : Rewrites offset edits text text') {front : String}
    (size : front.utf8ByteSize = offset) (back : String) :
    rewritten? (front ++ text ++ back) edits ⟨offset, offset + text.utf8ByteSize⟩ =
      some text' := by
  induction rewrites generalizing front with
  | done offset text =>
    refine Span.slice?_eq_some_iff.mpr ⟨Nat.le_add_right _ _, front, back, rfl, size, ?_⟩
    exact (Nat.add_sub_cancel_left offset _).symm
  | @edit offset edit gap covered rest text text' start stop others ih =>
    have whole : front ++ (gap ++ (covered ++ text)) ++ back =
        front ++ gap ++ covered ++ text ++ back := by simp only [String.append_assoc]
    have first : Span.slice? ⟨offset, edit.span.start⟩ (front ++ (gap ++ (covered ++ text)) ++ back)
        = some gap := by
      refine Span.slice?_eq_some_iff.mpr ⟨by simp only; omega, front, covered ++ text ++ back, ?_,
        size, by simp only; omega⟩
      simp only [String.append_assoc]
    have behind := @ih (front ++ gap ++ covered) (by
      rw [String.utf8ByteSize_append, String.utf8ByteSize_append]
      omega)
    have last : offset + (gap ++ (covered ++ text)).utf8ByteSize =
        edit.span.stop + text.utf8ByteSize := by
      rw [String.utf8ByteSize_append, String.utf8ByteSize_append]
      omega
    rw [rewritten?, first, last, whole, behind]
    simp only [Option.bind_eq_bind, Option.bind_some, Option.pure_def, String.append_assoc]

end Rewrites

/-- A span with a text in front of it and behind it covers what is between. -/
theorem slice?_of_append {front covered back : String} {span : Span}
    (start : span.start = front.utf8ByteSize)
    (stop : span.stop = span.start + covered.utf8ByteSize) :
    span.slice? (front ++ (covered ++ back)) = some covered :=
  Span.slice?_eq_some_iff.mpr
    ⟨by omega, front, back, String.append_assoc.symm, start.symm, by omega⟩

/-- Where a text can be read with its edits, it can be cut at both ends. -/
theorem cutAt_of_rewritten? {content text : String} {edits : List Edit} {span : Span}
    (given : rewritten? content edits span = some text) :
    CutAt content span.start ∧ CutAt content span.stop := by
  induction edits generalizing span text with
  | nil => exact (Span.slice?_isSome_iff.mp ⟨text, given⟩).2
  | cons edit rest ih =>
    obtain ⟨gap, first, given⟩ := Option.bind_eq_some_iff.mp given
    obtain ⟨behind, last, -⟩ := Option.bind_eq_some_iff.mp given
    exact ⟨(Span.slice?_isSome_iff.mp ⟨gap, first⟩).2.1, (ih last).2⟩

/-! ## Offsets before and after -/

/-- By how many bytes the edit lengthens the text. -/
def gain (edit : Edit) : Int :=
  edit.replacement.utf8ByteSize - (edit.span.stop - edit.span.start : Nat)

/-- By how many bytes the edits in front of an offset lengthen the text. -/
def gainBefore (edits : List Edit) (offset : Nat) : Int :=
  ((edits.filter fun edit => edit.shift.precedes offset).map gain).sum

/-- The offset is not swallowed: no edit starts before it and ends behind it. -/
def Clear (edits : List Edit) (offset : Nat) : Prop :=
  ∀ edit ∈ edits, ¬(edit.span.start < offset ∧ offset < edit.span.stop)

/-- An edit in order is in front of an offset that it does not swallow, or starts at or behind
it. -/
theorem precedes_iff {edit : Edit} {offset : Nat} (order : edit.span.start ≤ edit.span.stop)
    (clear : ¬(edit.span.start < offset ∧ offset < edit.span.stop)) :
    edit.shift.precedes offset = true ↔ edit.span.start < offset := by
  unfold Shift.precedes shift Span.isEmpty
  dsimp only
  by_cases empty : edit.span.start = edit.span.stop
  · rw [if_pos (beq_iff_eq.mpr empty), decide_eq_true_eq]
  · rw [if_neg (by simpa using empty), decide_eq_true_eq]
    omega

section gainBefore

variable {edit : Edit} {rest : List Edit} {offset : Nat}

/-- An edit in front of the offset counts. -/
theorem gainBefore_cons_of_lt (order : edit.span.start ≤ edit.span.stop)
    (before : edit.span.start < offset) (behind : edit.span.stop ≤ offset) :
    gainBefore (edit :: rest) offset = edit.gain + gainBefore rest offset := by
  have counts := (precedes_iff order fun inside => Nat.not_lt_of_le behind inside.2).mpr before
  rw [gainBefore, List.filter_cons, if_pos counts, List.map_cons, List.sum_cons, gainBefore]

/-- Edits that start at or behind the offset do not count. -/
theorem gainBefore_eq_zero {edits : List Edit}
    (behind : ∀ edit ∈ edits, offset ≤ edit.span.start ∧ edit.span.start ≤ edit.span.stop) :
    gainBefore edits offset = 0 := by
  have none : (edits.filter fun edit => edit.shift.precedes offset) = [] := by
    refine List.filter_eq_nil_iff.mpr fun edit member counts => ?_
    obtain ⟨near, order⟩ := behind edit member
    have before := (precedes_iff order (by omega)).mp counts
    omega
  rw [gainBefore, none, List.map_nil, List.sum_nil]

end gainBefore

namespace Rewrites

variable {offset : Nat} {edits : List Edit} {text text' : String}

/-- The text becomes longer by what the edits gain. -/
theorem size_eq (rewrites : Rewrites offset edits text text') :
    (text'.utf8ByteSize : Int) = text.utf8ByteSize + (edits.map gain).sum := by
  induction rewrites with
  | done => simp
  | edit edit gap covered start stop others ih =>
    simp only [String.utf8ByteSize_append, List.map_cons, List.sum_cons, gain]
    omega

/-- **Putting one text in place of another changes the whole text.** -/
theorem ne_of_renames {content : String} {old new : String}
    (rewrites : Rewrites 0 edits content text') (given : edits ≠ [])
    (renames : ∀ edit ∈ edits, edit.span.slice? content = some old ∧ edit.replacement = new)
    (differ : old ≠ new) : text' ≠ content := by
  intro same
  have gains : edits.map gain = List.replicate edits.length
      ((new.utf8ByteSize : Int) - old.utf8ByteSize) := by
    refine List.eq_replicate_iff.mpr ⟨List.length_map _, fun value listed => ?_⟩
    obtain ⟨edit, member, rfl⟩ := List.mem_map.mp listed
    obtain ⟨covers, replaced⟩ := renames edit member
    obtain ⟨-, -, -, -, -, length⟩ := Span.slice?_eq_some_iff.mp covers
    rw [gain, replaced, length]
  -- All edits gain the same, and together they gain nothing.
  have total := rewrites.size_eq
  rw [gains, List.sum_replicate, same, nsmul_eq_mul] at total
  have nothing : (edits.length : Int) * (new.utf8ByteSize - old.utf8ByteSize) = 0 := by omega
  have count : (edits.length : Int) ≠ 0 := by simpa using given
  have sizes := (mul_eq_zero.mp nothing).resolve_left count
  cases rewrites with
  | done => exact given rfl
  | edit edit gap covered start stop others =>
    obtain ⟨covers, replaced⟩ := renames edit List.mem_cons_self
    have first : edit.span.start = gap.utf8ByteSize := by omega
    rw [slice?_of_append first stop, Option.some_inj] at covers
    rw [covers, replaced, String.append_right_inj] at same
    obtain ⟨between, longer⟩ := begins_of_size_le same (by omega)
    have size := congrArg String.utf8ByteSize longer
    rw [String.utf8ByteSize_append] at size
    have empty : between = "" := String.utf8ByteSize_eq_zero_iff.mp (by omega)
    rw [empty, String.append_empty] at longer
    exact differ longer

/-- An offset that is not swallowed lands inside the new text. -/
theorem bounds (rewrites : Rewrites offset edits text text') {place : Nat} (low : offset ≤ place)
    (high : place ≤ offset + text.utf8ByteSize) (clear : Clear edits place) :
    offset ≤ place + gainBefore edits place ∧
      place + gainBefore edits place ≤ offset + text'.utf8ByteSize := by
  induction rewrites with
  | done =>
    simp only [gainBefore, List.filter_nil, List.map_nil, List.sum_nil]
    omega
  | @edit offset edit gap covered rest text text' start stop others ih =>
    simp only [String.utf8ByteSize_append] at high ⊢
    by_cases before : edit.span.start < place
    · have beyond := clear edit List.mem_cons_self
      have further := ih (by omega) (by omega) fun later member =>
        clear later (List.mem_cons_of_mem _ member)
      rw [gainBefore_cons_of_lt (by omega) before (by omega), gain]
      omega
    · rw [gainBefore_eq_zero (others.behind_cons (by omega) before)]
      omega

/-- Offsets that are not swallowed stay in order. -/
theorem mono (rewrites : Rewrites offset edits text text') {place place' : Nat}
    (order : place ≤ place') (high : place' ≤ offset + text.utf8ByteSize)
    (clear : Clear edits place) (clear' : Clear edits place') :
    place + gainBefore edits place ≤ place' + gainBefore edits place' := by
  induction rewrites with
  | done => simpa [gainBefore] using order
  | @edit offset edit gap covered rest text text' start stop others ih =>
    simp only [String.utf8ByteSize_append] at high
    have beyond := clear edit List.mem_cons_self
    have beyond' := clear' edit List.mem_cons_self
    have later (given : Clear (edit :: rest) place) : Clear rest place :=
      fun other member => given other (List.mem_cons_of_mem _ member)
    have clear'' : Clear rest place' := fun other member =>
      clear' other (List.mem_cons_of_mem _ member)
    by_cases before : edit.span.start < place
    · have further := ih (by omega) (later clear) clear''
      rw [gainBefore_cons_of_lt (by omega) before (by omega),
        gainBefore_cons_of_lt (by omega) (by omega) (by omega)]
      omega
    · rw [gainBefore_eq_zero (others.behind_cons (by omega) before)]
      by_cases before' : edit.span.start < place'
      · have further := (others.bounds (by omega) (by omega) clear'').1
        rw [gainBefore_cons_of_lt (by omega) before' (by omega), gain]
        omega
      · rw [gainBefore_eq_zero (others.behind_cons (by omega) before')]
        omega

/-- The new text can be cut where an offset lands exactly if the old text can be cut at it. -/
theorem cutAt_iff (rewrites : Rewrites offset edits text text') {place place' : Nat}
    (low : offset ≤ place) (high : place ≤ offset + text.utf8ByteSize) (clear : Clear edits place)
    (lands : (place' : Int) = place + gainBefore edits place) :
    CutAt text' (place' - offset) ↔ CutAt text (place - offset) := by
  induction rewrites generalizing place' with
  | done =>
    have same : place' = place := by
      simp only [gainBefore, List.filter_nil, List.map_nil, List.sum_nil] at lands
      omega
    rw [same]
  | @edit offset edit gap covered rest text text' start stop others ih =>
    simp only [String.utf8ByteSize_append] at high
    by_cases before : edit.span.start < place
    · have beyond := clear edit List.mem_cons_self
      rw [gainBefore_cons_of_lt (by omega) before (by omega), gain] at lands
      have clear' : Clear rest place := fun other member =>
        clear other (List.mem_cons_of_mem _ member)
      have further := (others.bounds (by omega) (by omega) clear').1
      -- Behind the edit, both texts are cut like what is left of them.
      have old : CutAt (gap ++ (covered ++ text)) (place - offset) ↔
          CutAt text (place - edit.span.stop) := by
        rw [cutAt_append_right (by omega), cutAt_append_right (by omega)]
        exact iff_of_eq (congrArg (CutAt text) (by omega))
      have new : CutAt (gap ++ (edit.replacement ++ text')) (place' - offset) ↔
          CutAt text' ((place + gainBefore rest place).toNat - edit.span.stop) := by
        rw [cutAt_append_right (by omega), cutAt_append_right (by omega)]
        exact iff_of_eq (congrArg (CutAt text') (by omega))
      rw [old, new]
      exact ih (by omega) (by omega) clear' (by omega)
    · rw [gainBefore_eq_zero (others.behind_cons (by omega) before)] at lands
      have same : place' = place := by omega
      rw [same, cutAt_append_left (by omega), cutAt_append_left (by omega)]

/-- Edits that start at or behind the offset do not count. -/
theorem filter_of_behind (rewrites : Rewrites offset edits text text') {place : Nat}
    (near : place ≤ offset) :
    (edits.filter fun edit => edit.shift.precedes place) = [] ∧
      (edits.filter fun edit => !edit.shift.precedes place) = edits := by
  have counts (edit : Edit) (member : edit ∈ edits) : edit.shift.precedes place = false := by
    obtain ⟨behind, order⟩ := rewrites.behind edit member
    rw [Bool.eq_false_iff]
    intro counts
    have before := (precedes_iff order (by omega)).mp counts
    omega
  refine ⟨List.filter_eq_nil_iff.mpr fun edit member => ?_,
    List.filter_eq_self.mpr fun edit member => ?_⟩
  · rw [counts edit member]
    exact Bool.false_ne_true
  · rw [counts edit member, Bool.not_false]

/-- **At a cut that is not swallowed, the rewriting falls into two**: the edits in front of the cut
rewrite the text in front of it, and the others the text behind. -/
theorem split (rewrites : Rewrites offset edits text text') {front back : String}
    (whole : text = front ++ back) {place : Nat} (size : place = offset + front.utf8ByteSize)
    (clear : Clear edits place) :
    ∃ front' back', text' = front' ++ back' ∧
      Rewrites offset (edits.filter fun edit => edit.shift.precedes place) front front' ∧
      Rewrites place (edits.filter fun edit => !edit.shift.precedes place) back back' := by
  induction rewrites generalizing front with
  | done offset text => exact ⟨front, back, whole, .done _ _, .done _ _⟩
  | @edit offset edit gap covered rest text text' start stop others ih =>
    have one := precedes_iff (by omega) (clear edit List.mem_cons_self)
    have beyond := clear edit List.mem_cons_self
    by_cases before : edit.span.start < place
    · -- The edit is in front of the cut, with the gap before it.
      rw [← String.append_assoc] at whole
      obtain ⟨inner, rfl⟩ := begins_of_size_le whole (by
        rw [String.utf8ByteSize_append]
        omega)
      rw [String.utf8ByteSize_append, String.utf8ByteSize_append] at size
      have behind : text = inner ++ back := by
        simpa only [String.append_assoc, String.append_right_inj] using whole
      obtain ⟨inner', back', rfl, first, second⟩ := ih behind (by omega) fun later member =>
        clear later (List.mem_cons_of_mem _ member)
      refine ⟨gap ++ (edit.replacement ++ inner'), back', ?_, ?_, ?_⟩
      · simp only [String.append_assoc]
      · rw [List.filter_cons, if_pos (one.mpr before), String.append_assoc]
        exact .edit edit gap covered start stop first
      · rw [List.filter_cons, one.mpr before, Bool.not_true, if_neg Bool.false_ne_true]
        exact second
    · obtain ⟨inner, rfl⟩ := begins_of_size_le whole.symm (by omega)
      rw [String.append_assoc, String.append_right_inj] at whole
      rw [String.utf8ByteSize_append] at start
      have behind : Rewrites place (edit :: rest) (inner ++ (covered ++ text))
          (inner ++ (edit.replacement ++ text')) := .edit edit inner covered (by omega) stop others
      obtain ⟨none, all⟩ := behind.filter_of_behind (Nat.le_refl place)
      rw [none, all, ← whole]
      exact ⟨front, _, String.append_assoc, .done _ _, behind⟩

end Rewrites

/-! ## Where the walk puts spans -/

/-- Counted in words, the text grows by what the edits gain. -/
theorem signedWord_add_growthBefore (edits : List Edit) (offset : Nat) (base : Int) :
    signedWord (base + growthBefore offset (edits.map shift)) =
      signedWord (base + gainBefore edits offset) := by
  induction edits generalizing base with
  | nil => rfl
  | cons edit rest ih =>
    rw [List.map_cons, growthBefore, gainBefore, List.filter_cons]
    split
    · have delta : edit.delta = signedWord edit.gain := by
        simp only [Edit.delta, gain, Span.length, signedWord, Int.sub_bmod_bmod]
      have step : signedWord (base + edit.delta + gainBefore rest offset) =
          signedWord (base + edit.gain + gainBefore rest offset) := by
        rw [delta, Int.add_right_comm base (signedWord edit.gain),
          Int.add_right_comm base edit.gain]
        simp only [signedWord, Int.add_bmod_bmod]
      have moved : edit.shift.delta = edit.delta := by simp only [shift]
      rw [moved, List.map_cons, List.sum_cons, ← Int.add_assoc, ← Int.add_assoc, ih]
      exact step
    · exact ih base

/-- **The walk puts an offset where it lands**, as far as offsets are words. -/
theorem moveOffset_eq {edits : List Edit} {offset place : Nat}
    (lands : (place : Int) = offset + gainBefore edits offset) (small : place < 2 ^ 63) :
    moveOffset (edits.map shift) offset = place := by
  rw [moveOffset, shiftOffset, signedWord_add_growthBefore, ← shiftOffset]
  exact shiftOffset_eq lands.symm small

/-- **A span whose ends are not swallowed moves to a span**, in order and inside the new text. -/
theorem Rewrites.exists_moved {edits : List Edit} {content text : String} {span : Span}
    (rewrites : Rewrites 0 edits content text) (small : text.utf8ByteSize < 2 ^ 63)
    (order : span.start ≤ span.stop) (inside : span.stop ≤ content.utf8ByteSize)
    (clear : Clear edits span.start) (clear' : Clear edits span.stop) :
    ∃ start stop : Nat, (remap edits).span span = .ok ⟨start, stop⟩ ∧
      (start : Int) = span.start + gainBefore edits span.start ∧
      (stop : Int) = span.stop + gainBefore edits span.stop ∧ start ≤ stop := by
  obtain ⟨low, high⟩ := rewrites.bounds (Nat.zero_le _) (by omega) clear
  obtain ⟨low', high'⟩ := rewrites.bounds (Nat.zero_le _) (by omega) clear'
  have upright := rewrites.mono order (by omega) clear clear'
  obtain ⟨start, lands⟩ := Int.eq_ofNat_of_zero_le (by omega :
    0 ≤ span.start + gainBefore edits span.start)
  obtain ⟨stop, lands'⟩ := Int.eq_ofNat_of_zero_le (by omega :
    0 ≤ span.stop + gainBefore edits span.stop)
  have first := moveOffset_eq lands.symm (by omega)
  have last := moveOffset_eq lands'.symm (by omega)
  refine ⟨start, stop, ?_, lands.symm, lands'.symm, by omega⟩
  refine (remap_span edits span.start span.stop).trans ?_
  rw [first, last]
  exact Span.between_of_le (by omega)

/-- The edit leaves the span alone: it ends where the span starts, or before, or starts where the
span ends, or behind. -/
def Beside (edit : Edit) (span : Span) : Prop :=
  edit.span.stop ≤ span.start ∨ span.stop ≤ edit.span.start

instance (edit : Edit) (span : Span) : Decidable (edit.Beside span) :=
  inferInstanceAs (Decidable (_ ∨ _))

/-- The edit is made inside the span. -/
def Inside (edit : Edit) (span : Span) : Prop :=
  span.contains edit.span = true ∧ ¬edit.Beside span

instance (edit : Edit) (span : Span) : Decidable (edit.Inside span) :=
  inferInstanceAs (Decidable (_ ∧ _))

/-- The edit is an insertion where the span starts. -/
def InsertsAt (edit : Edit) (span : Span) : Prop := edit.span = Span.point span.start

/-- The edits each leave the span alone or are made inside it, and none is an insertion at its
start, unless the span is empty. -/
def Respect (edits : List Edit) (span : Span) : Prop :=
  ∀ edit ∈ edits, (edit.Beside span ∨ span.contains edit.span = true) ∧
    (span.start < span.stop → ¬edit.InsertsAt span)

section Respect

variable {edits : List Edit} {span : Span}

/-- Edits that respect a span do not swallow its ends. -/
theorem Respect.clear (respect : Respect edits span) (order : span.start ≤ span.stop)
    (orders : ∀ edit ∈ edits, edit.span.start ≤ edit.span.stop) :
    Clear edits span.start ∧ Clear edits span.stop := by
  have each (edit : Edit) (member : edit ∈ edits) := (respect edit member).1
  simp only [Beside, Span.contains, Bool.and_eq_true, decide_eq_true_eq] at each
  refine ⟨fun edit member => ?_, fun edit member => ?_⟩
  · have known := each edit member
    have upright := orders edit member
    omega
  · have known := each edit member
    have upright := orders edit member
    omega

/-- The edits made inside a span are those in front of its end and not in front of its start. -/
theorem Respect.filter_eq (respect : Respect edits span) (order : span.start ≤ span.stop)
    (orders : ∀ edit ∈ edits, edit.span.start ≤ edit.span.stop) :
    ((edits.filter fun edit => edit.shift.precedes span.stop).filter fun edit =>
        !edit.shift.precedes span.start) = edits.filter (fun edit => edit.Inside span) ∧
      ((edits.filter fun edit => edit.shift.precedes span.stop).filter fun edit =>
        edit.shift.precedes span.start) =
          edits.filter fun edit => edit.shift.precedes span.start := by
  obtain ⟨clear, clear'⟩ := respect.clear order orders
  rw [List.filter_filter, List.filter_filter]
  refine ⟨List.filter_congr fun edit member => ?_, List.filter_congr fun edit member => ?_⟩
  · obtain ⟨either, apart⟩ := respect edit member
    have upright := orders edit member
    rw [Bool.eq_iff_iff, Bool.and_eq_true, Bool.not_eq_true', Bool.eq_false_iff, Ne,
      precedes_iff upright (clear edit member), precedes_iff upright (clear' edit member),
      decide_eq_true_eq]
    have point : edit.InsertsAt span ↔
        edit.span.start = span.start ∧ edit.span.stop = span.start := by
      unfold InsertsAt
      generalize edit.span = covered
      obtain ⟨start, stop⟩ := covered
      rw [Span.point, Span.mk.injEq]
    simp only [Inside, Beside, Span.contains, Bool.and_eq_true, decide_eq_true_eq, point] at *
    omega
  · have upright := orders edit member
    rw [Bool.eq_iff_iff, Bool.and_eq_true, precedes_iff upright (clear edit member),
      precedes_iff upright (clear' edit member)]
    omega

/-- **A span that is respected lands on its text, with the edits inside it made.** -/
theorem slice?_moved {content text : String} (rewrites : Rewrites 0 edits content text)
    (small : text.utf8ByteSize < 2 ^ 63) (order : span.start ≤ span.stop)
    (inside : span.stop ≤ content.utf8ByteSize) (respect : Respect edits span) :
    ∃ moved, (remap edits).span span = .ok moved ∧
      moved.slice? text =
        rewritten? content (edits.filter fun edit => edit.Inside span) span := by
  have orders (edit : Edit) (member : edit ∈ edits) := (rewrites.behind edit member).2
  obtain ⟨clear, clear'⟩ := respect.clear order orders
  obtain ⟨within, before⟩ := respect.filter_eq order orders
  obtain ⟨start, stop, moved, lands, lands', upright⟩ :=
    rewrites.exists_moved small order inside clear clear'
  refine ⟨⟨start, stop⟩, moved, ?_⟩
  by_cases cuts : CutAt content span.start ∧ CutAt content span.stop
  · -- The text falls into three parts, and each is rewritten on its own.
    obtain ⟨covered, sliced⟩ := Span.slice?_isSome_iff.mpr ⟨order, cuts⟩
    obtain ⟨-, front, back, whole, size, length⟩ := Span.slice?_eq_some_iff.mp sliced
    obtain ⟨head', back', rfl, head, -⟩ := rewrites.split whole
      (by rw [String.utf8ByteSize_append]; omega) clear'
    have clear'' : Clear (edits.filter fun edit => edit.shift.precedes span.stop) span.start :=
      fun edit member => clear edit (List.mem_filter.mp member).1
    obtain ⟨front', covered', rfl, first', middle⟩ := head.split rfl (by omega) clear''
    rw [before] at first'
    rw [within] at middle
    have reads := middle.rewritten?_eq size back
    have covers : (⟨span.start, span.start + covered.utf8ByteSize⟩ : Span) = span := by
      rw [length, Nat.add_sub_cancel' order]
    rw [← whole, covers] at reads
    rw [reads]
    have size' := first'.size_eq
    have length' := head.size_eq
    rw [String.utf8ByteSize_append, String.utf8ByteSize_append] at length'
    simp only [gainBefore] at lands lands'
    refine Span.slice?_eq_some_iff.mpr ⟨by simp only; omega, front', back', rfl, ?_, ?_⟩
    · simp only
      omega
    · simp only
      omega
  · -- No text stands at the span, before or after.
    have none : rewritten? content (edits.filter fun edit => edit.Inside span) span = none := by
      refine Option.eq_none_iff_forall_ne_some.mpr fun found given => cuts ?_
      exact cutAt_of_rewritten? given
    rw [none]
    refine Option.eq_none_iff_forall_ne_some.mpr fun found given => cuts ?_
    obtain ⟨-, one, other⟩ := Span.slice?_isSome_iff.mp ⟨found, given⟩
    have back := (rewrites.cutAt_iff (Nat.zero_le _) (by omega) clear lands).mp one
    have back' := (rewrites.cutAt_iff (Nat.zero_le _) (by omega) clear' lands').mp other
    exact ⟨back, back'⟩

end Respect

end Edit

end GoRefactor
