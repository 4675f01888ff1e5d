import GoRefactor.Proofs.Go.Parser.Mirror
import GoRefactor.Proofs.Go.Token.Layout

/-!
# Names exchanged at their places

At each place of a text stands one lexeme. Edits that put one name in place of another are found
from the places that they cover, and where a lexeme stood stands itself afterwards, or the name that
an edit puts there.
-/

namespace GoRefactor

namespace Lexeme

/-- The lexeme stands at the span among lexemes that begin at an offset. -/
def Stands (offset : Nat) (lexemes : List Lexeme) (lexeme : Lexeme) (span : Span) : Prop :=
  ∃ front back, lexemes = front ++ lexeme :: back ∧
    span = ⟨offset + byteLength (flat front),
      offset + byteLength (flat front) + byteLength lexeme.text⟩

section Stands

variable {offset : Nat} {lexemes : List Lexeme} {lexeme : Lexeme} {span : Span}

/-- The first lexeme stands at the offset, the others behind it. -/
theorem stands_cons_iff {head : Lexeme} {rest : List Lexeme} :
    Stands offset (head :: rest) lexeme span ↔
      lexeme = head ∧ span = ⟨offset, offset + byteLength head.text⟩ ∨
        Stands (offset + byteLength head.text) rest lexeme span := by
  constructor
  · rintro ⟨front, back, same, covers⟩
    cases front with
    | nil =>
      obtain ⟨rfl, rfl⟩ := List.cons_eq_cons.mp same
      exact Or.inl ⟨rfl, by simpa using covers⟩
    | cons first others =>
      obtain ⟨rfl, rfl⟩ := List.cons_eq_cons.mp same
      exact Or.inr ⟨others, back, rfl, by simpa [Nat.add_assoc] using covers⟩
  · rintro (⟨rfl, covers⟩ | ⟨front, back, same, covers⟩)
    · exact ⟨[], rest, rfl, by simpa using covers⟩
    · exact ⟨head :: front, back, by rw [same]; rfl, by simpa [Nat.add_assoc] using covers⟩

/-- A lexeme stands at or behind the offset. -/
theorem Stands.behind (stands : Stands offset lexemes lexeme span) : offset ≤ span.start := by
  obtain ⟨front, back, -, covers⟩ := stands
  rw [covers]
  exact Nat.le_add_right _ _

/-- At each place stands one lexeme. -/
theorem Stands.unique (solid : Solid lexemes) {other : Lexeme} {place : Span}
    (stands : Stands offset lexemes lexeme span) (stands' : Stands offset lexemes other place)
    (same : span.start = place.start) : lexeme = other ∧ span = place := by
  induction lexemes generalizing offset with
  | nil =>
    obtain ⟨front, back, none, -⟩ := stands
    simp at none
  | cons head rest ih =>
    have positive := solid.head
    rcases stands_cons_iff.mp stands with ⟨rfl, rfl⟩ | later
    · rcases stands_cons_iff.mp stands' with ⟨rfl, rfl⟩ | later'
      · exact ⟨rfl, rfl⟩
      · have behind := later'.behind
        simp only at same
        omega
    · rcases stands_cons_iff.mp stands' with ⟨rfl, rfl⟩ | later'
      · have behind := later.behind
        simp only at same
        omega
      · exact ih solid.tail later later'

/-- A lexeme stands where its text does. -/
theorem Stands.slice? (stands : Stands 0 lexemes lexeme span) :
    span.slice? (String.ofList (flat lexemes)) = some (String.ofList lexeme.text) := by
  obtain ⟨front, back, rfl, rfl⟩ := stands
  refine Span.slice?_eq_some_iff.mpr ⟨Nat.le_add_right _ _, String.ofList (flat front),
    String.ofList (flat back), ?_, ?_, ?_⟩
  · rw [flat_append, flat_cons, ← String.ofList_append, ← String.ofList_append, List.append_assoc]
  · rw [utf8ByteSize_ofList, Nat.zero_add]
  · rw [utf8ByteSize_ofList]
    simp

/-- A name or dot among the tokens is a lexeme. -/
theorem stands_of_mem_tokensFrom {line : Nat} {closable : Bool} {token : Token}
    (member : token ∈ tokensFrom offset line closable lexemes) (names : token.Names) :
    ∃ lexeme, Stands offset lexemes lexeme token.span ∧ String.ofList lexeme.text = token.text ∧
      (token.kind = .identifier →
        lexeme = .word token.text.toList ∧ isKeyword token.text = false) := by
  obtain ⟨front, back, rfl, start, -, makes⟩ := exists_makes_of_mem_tokensFrom member
  cases makes with
  | @written lexeme rest _ place line made =>
    have covers := (token?_eq_some made).1
    rw [covers] at start
    refine ⟨lexeme, ⟨front, rest, rfl, by rw [← start, covers]⟩, ?_⟩
    cases lexeme with
    | word text =>
      cases made
      refine ⟨rfl, fun named => ?_⟩
      simp only at named ⊢
      split at named
      · cases named
      · rename_i proper
        exact ⟨by rw [String.toList_ofList], by simpa using proper⟩
    | number | quoted | raw | semicolon | mark =>
      cases made
      exact ⟨rfl, fun named => absurd named TokenKind.noConfusion⟩
    | blank | newline | lineComment | blockComment | foreign => cases made
  | inserted => exact absurd names (by simp [Token.Names, Token.is])
  | finish => exact absurd names (by simp [Token.Names, Token.is])

/-- Tokens start and stop between lexemes. -/
theorem bound_of_mem_tokensFrom (solid : Solid lexemes) {line : Nat} {closable : Bool}
    {token : Token} (member : token ∈ tokensFrom offset line closable lexemes) :
    (∃ count, token.span.start = offset + byteLength (flat (lexemes.take count))) ∧
      ∃ count, token.span.stop = offset + byteLength (flat (lexemes.take count)) := by
  -- Without edits each token is paired with itself, and its ends with themselves.
  let boundary (place _ : Nat) : Prop :=
    ∃ count, place = offset + byteLength (flat (lexemes.take count))
  have paired : List.Forall₂ (Paired [] boundary offset line line)
      (tokensFrom offset line closable lexemes) (tokensFrom offset line closable lexemes) :=
    (Relabels.refl offset lexemes).tokens solid line line closable fun count => ⟨count, rfl⟩
  obtain ⟨image, -, pair⟩ := exists_mem_of_forall₂ paired.flip member
  exact ⟨pair.start, pair.stop⟩

end Stands

namespace Relabels

variable {offset offset' : Nat} {lexemes lexemes' : List Lexeme} {edits : List Edit}

/-- Names in place of names leave no lexeme empty. -/
theorem solid (relabels : Relabels offset lexemes edits lexemes') (solid : Solid lexemes) :
    Solid lexemes' := by
  induction relabels with
  | done => exact solid
  | keep lexeme others ih =>
    intro other member
    rcases List.mem_cons.mp member with rfl | later
    · exact solid _ List.mem_cons_self
    · exact ih solid.tail other later
  | swap edit covers old new others ih =>
    intro other member
    rcases List.mem_cons.mp member with rfl | later
    · obtain ⟨c, cs, text, -⟩ := starts_of_isWord (isWord_of_name new).1
      rw [Lexeme.text, text]
      exact List.cons_ne_nil c cs
    · exact ih solid.tail other later

/-- Edits by increasing place, each of a name, put names in place of names. -/
theorem of_edits (solid : Solid lexemes)
    (sorted : edits.Pairwise fun earlier later => earlier.span.start < later.span.start)
    (names : ∀ edit ∈ edits, nameFlaw? edit.replacement = none ∧
      ∃ text, isKeyword (String.ofList text) = false ∧
        Stands offset lexemes (.word text) edit.span) :
    ∃ lexemes', Relabels offset lexemes edits lexemes' := by
  induction lexemes generalizing offset edits with
  | nil =>
    cases edits with
    | nil => exact ⟨[], .done offset⟩
    | cons edit rest =>
      obtain ⟨-, text, -, front, back, none, -⟩ := names edit List.mem_cons_self
      simp at none
  | cons head rest ih =>
    have positive := solid.head
    -- Edits behind the first lexeme are edits of the others.
    have behind {others : List Edit}
        (sorted : others.Pairwise fun earlier later => earlier.span.start < later.span.start)
        (member : ∀ edit ∈ others, edit ∈ edits)
        (far : ∀ edit ∈ others, offset < edit.span.start) :
        ∃ lexemes', Relabels (offset + byteLength head.text) rest others lexemes' := by
      refine ih solid.tail sorted fun edit held => ?_
      obtain ⟨new, text, old, stands⟩ := names edit (member edit held)
      rcases stands_cons_iff.mp stands with ⟨-, covers⟩ | later
      · have away := far edit held
        rw [covers] at away
        simp only at away
        omega
      · exact ⟨new, text, old, later⟩
    cases edits with
    | nil =>
      obtain ⟨lexemes', relabels⟩ := behind List.Pairwise.nil (fun _ held => held)
        (fun _ held => nomatch held)
      exact ⟨head :: lexemes', .keep head relabels⟩
    | cons edit others =>
      obtain ⟨first, following⟩ := List.pairwise_cons.mp sorted
      obtain ⟨new, text, old, stands⟩ := names edit List.mem_cons_self
      rcases stands_cons_iff.mp stands with ⟨rfl, covers⟩ | later
      · obtain ⟨lexemes', relabels⟩ := behind following
          (fun _ held => List.mem_cons_of_mem _ held) fun other held => by
            have away := first other held
            rw [covers] at away
            exact away
        exact ⟨.word edit.replacement.toList :: lexemes', .swap edit covers old new relabels⟩
      · have away : offset < edit.span.start := by
          have far := later.behind
          omega
        obtain ⟨lexemes', relabels⟩ := behind sorted (fun _ held => held) fun other held => by
          rcases List.mem_cons.mp held with rfl | later
          · exact away
          · exact Nat.lt_trans away (first other later)
        exact ⟨head :: lexemes', .keep head relabels⟩

/-- Where a lexeme stood stands itself, or the name that an edit puts there. -/
theorem stands (relabels : Relabels offset lexemes edits lexemes') (solid : Solid lexemes)
    {boundary : Nat → Nat → Prop}
    (places : ∀ count, boundary (offset + byteLength (flat (lexemes.take count)))
      (offset' + byteLength (flat (lexemes'.take count))))
    {lexeme : Lexeme} {span : Span} (stands : Stands offset lexemes lexeme span) :
    ∃ lexeme' span', Stands offset' lexemes' lexeme' span' ∧ boundary span.start span'.start ∧
      boundary span.stop span'.stop ∧
      String.ofList lexeme'.text =
        (Edit.replacementAt edits span).getD (String.ofList lexeme.text) := by
  induction relabels generalizing offset' with
  | done =>
    obtain ⟨front, back, none, -⟩ := stands
    simp at none
  | @keep offset head rest rest' edits others ih =>
    have positive := solid.head
    rcases stands_cons_iff.mp stands with ⟨rfl, covers⟩ | later
    · refine ⟨lexeme, ⟨offset', offset' + byteLength lexeme.text⟩,
        stands_cons_iff.mpr (Or.inl ⟨rfl, rfl⟩), ?_, ?_, ?_⟩
      · rw [covers]
        simpa using places 0
      · rw [covers]
        simpa using places 1
      · rw [others.replacementAt_eq_none solid.tail (by rw [covers]; simp only; omega)]
        rfl
    · obtain ⟨lexeme', span', stands', facts⟩ := ih solid.tail (places_tail places) later
      exact ⟨lexeme', span', stands_cons_iff.mpr (Or.inr stands'), facts⟩
  | @swap offset edit text rest rest' edits covers old new others ih =>
    obtain ⟨-, nonempty⟩ := (Relabels.swap edit covers old new others).edit_mem solid
      List.mem_cons_self
    rcases stands_cons_iff.mp stands with ⟨rfl, here⟩ | later
    · refine ⟨.word edit.replacement.toList,
        ⟨offset', offset' + byteLength edit.replacement.toList⟩,
        stands_cons_iff.mpr (Or.inl ⟨rfl, rfl⟩), ?_, ?_, ?_⟩
      · rw [here]
        simpa using places 0
      · rw [here]
        simpa [Lexeme.text] using places 1
      · have found : (!edit.span.isEmpty && edit.span == span) = true := by
          rw [covers] at nonempty
          rw [here, covers]
          simp only [Span.isEmpty, Lexeme.text, beq_self_eq_true, Bool.and_true, Bool.not_eq_true',
            beq_eq_false_iff_ne, ne_eq]
          exact Nat.ne_of_lt nonempty
        unfold Edit.replacementAt
        rw [List.find?_cons, found]
        exact String.ofList_toList
    · obtain ⟨lexeme', span', stands', start, stop, text'⟩ :=
        ih solid.tail (places_tail places) later
      refine ⟨lexeme', span', stands_cons_iff.mpr (Or.inr stands'), start, stop, text'.trans ?_⟩
      have other : (!edit.span.isEmpty && edit.span == span) = false := by
        rw [Bool.and_eq_false_iff]
        refine Or.inr (beq_false_of_ne fun same => ?_)
        have behind := later.behind
        rw [same] at nonempty covers
        rw [covers] at behind nonempty
        simp only [Lexeme.text] at behind nonempty
        omega
      unfold Edit.replacementAt
      rw [List.find?_cons, other]

end Relabels

end Lexeme

end GoRefactor
