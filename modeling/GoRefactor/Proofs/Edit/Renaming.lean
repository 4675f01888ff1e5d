import GoRefactor.Proofs.Edit.Visited
import GoRefactor.Proofs.Go.Token.Exchange
import GoRefactor.Proofs.Module.Sources

/-!
# Places between lexemes under edits that exchange names

Edits that put names in place of names leave as many lexemes as there were, so the place behind so
many of them goes to the place behind as many afterwards. What the visitor of the edits makes of a
span between lexemes, and of a name that stands there, is what stands there afterwards.
-/

namespace GoRefactor

open Lexeme

namespace TokenStream

/-- The name of a token with its place. -/
def hasName (stream : TokenStream) (name : String) (span : Span) : Bool :=
  stream.tokens.any fun token =>
    (token.kind == .identifier || token.is ".") && token.text == name && token.span == span

/-- Such a name is the text of a token that can stand for one. -/
theorem hasName_iff {stream : TokenStream} {name : String} {span : Span} :
    stream.hasName name span = true ↔
      ∃ token ∈ stream.tokens, token.Names ∧ token.text = name ∧ token.span = span := by
  simp [hasName, Token.Names, and_assoc]

end TokenStream

/-- Where the replacement of an edit stands in the text after the edits. -/
def Edit.landing (edits : List Edit) (edit : Edit) : Span :=
  ⟨moveOffset (edits.map shift) edit.span.start, moveOffset (edits.map shift) edit.span.stop⟩

namespace Lexeme

variable {lexemes lexemes' : List Lexeme} {edits : List Edit}

/-- The offset behind some lexemes. -/
abbrev place (lexemes : List Lexeme) (count : Nat) : Nat := byteLength (flat (lexemes.take count))

/-- A lexeme stands between two neighbouring places. -/
theorem Stands.places {lexeme : Lexeme} {span : Span} (stands : Stands 0 lexemes lexeme span) :
    ∃ count, span = ⟨place lexemes count, place lexemes (count + 1)⟩ := by
  obtain ⟨front, back, rfl, rfl⟩ := stands
  refine ⟨front.length, ?_⟩
  rw [place, place, List.take_left, List.take_length_add_append]
  simp

/-- More lexemes end at the same place or at a later one. -/
theorem place_le {count count' : Nat} (order : count ≤ count') :
    place lexemes count ≤ place lexemes count' := by
  obtain ⟨more, rfl⟩ := Nat.exists_eq_add_of_le order
  rw [place, place, List.take_add, flat_append, byteLength_append]
  exact Nat.le_add_right _ _

/-- Two lexemes stand at the same span, or one behind the other. -/
theorem Stands.apart {lexeme lexeme' : Lexeme} {span span' : Span}
    (stands : Stands 0 lexemes lexeme span) (stands' : Stands 0 lexemes lexeme' span') :
    span = span' ∨ span.stop ≤ span'.start ∨ span'.stop ≤ span.start := by
  obtain ⟨count, rfl⟩ := stands.places
  obtain ⟨count', rfl⟩ := stands'.places
  rcases Nat.lt_trichotomy count count' with before | rfl | behind
  · exact Or.inr (Or.inl (place_le before))
  · exact Or.inl rfl
  · exact Or.inr (Or.inr (place_le behind))

/-- Between solid lexemes each place is behind one number of them. -/
theorem take_eq_of_place_le (solid : Solid lexemes) {count count' : Nat} (more : count ≤ count')
    (back : place lexemes count' ≤ place lexemes count) :
    lexemes.take count' = lexemes.take count := by
  obtain ⟨rest, rfl⟩ := Nat.exists_eq_add_of_le more
  rw [place, place, List.take_add, flat_append, byteLength_append] at back
  rw [List.take_add]
  cases taken : (lexemes.drop count).take rest with
  | nil => rw [List.append_nil]
  | cons head others =>
    have member : head ∈ lexemes :=
      List.mem_of_mem_drop (List.mem_of_mem_take (taken ▸ List.mem_cons_self))
    have nonempty : 0 < byteLength head.text :=
      Solid.head fun other held => solid other ((List.mem_singleton.mp held) ▸ member)
    rw [taken, flat_cons, byteLength_append] at back
    omega

namespace Relabels

/-- Names in place of names leave as many lexemes. -/
theorem length_eq {offset : Nat} (relabels : Relabels offset lexemes edits lexemes') :
    lexemes'.length = lexemes.length := by
  induction relabels with
  | done => rfl
  | keep lexeme others ih => rw [List.length_cons, List.length_cons, ih]
  | swap edit covers old new others ih => rw [List.length_cons, List.length_cons, ih]

/-- Two places of the old lexemes keep their order in the new ones. -/
theorem place_mono (relabels : Relabels 0 lexemes edits lexemes') (solid : Solid lexemes)
    {count count' : Nat} (order : place lexemes count ≤ place lexemes count') :
    place lexemes' count ≤ place lexemes' count' := by
  rcases Nat.le_total count count' with more | fewer
  · exact place_le more
  · have same := congrArg List.length (take_eq_of_place_le solid fewer order)
    rw [List.length_take, List.length_take, ← relabels.length_eq] at same
    have equal : lexemes'.take count = lexemes'.take count' := List.take_eq_take_iff.mpr same
    rw [place, equal]

variable (relabels : Relabels 0 lexemes edits lexemes') (solid : Solid lexemes)
  (fits : byteLength (flat lexemes) < 2 ^ 63) (fits' : byteLength (flat lexemes') < 2 ^ 63)

include relabels solid fits fits'

/-- Spans between lexemes go where their ends go. -/
theorem span_remap {count count' : Nat} (order : place lexemes count ≤ place lexemes count') :
    (Edit.remap edits).span ⟨place lexemes count, place lexemes count'⟩ =
      .ok ⟨place lexemes' count, place lexemes' count'⟩ := by
  rw [Edit.remap_span, relabels.moveOffset_eq solid fits fits' count,
    relabels.moveOffset_eq solid fits fits' count']
  unfold Span.between Span.between?
  rw [if_pos (relabels.place_mono solid order)]

/-- Where a lexeme stood stands what the visitor of the edits makes of it. -/
theorem stands_remap {lexeme : Lexeme} {span : Span} (stands : Stands 0 lexemes lexeme span) :
    ∃ lexeme' span', Stands 0 lexemes' lexeme' span' ∧
      (Edit.remap edits).named (String.ofList lexeme.text) span =
        .ok (String.ofList lexeme'.text, span') ∧
      ∃ count, span = ⟨place lexemes count, place lexemes (count + 1)⟩ ∧
        span' = ⟨place lexemes' count, place lexemes' (count + 1)⟩ := by
  obtain ⟨count, here⟩ := stands.places
  let boundary (before after : Nat) : Prop :=
    Edit.moveOffset (edits.map Edit.shift) before = after
  have moves (count : Nat) : boundary (0 + place lexemes count) (0 + place lexemes' count) := by
    rw [Nat.zero_add, Nat.zero_add]
    exact relabels.moveOffset_eq solid fits fits' count
  obtain ⟨lexeme', span', stands', start, stop, text⟩ := relabels.stands solid moves stands
  have there : span' = ⟨place lexemes' count, place lexemes' (count + 1)⟩ := by
    rw [here] at start stop
    have first := (relabels.moveOffset_eq solid fits fits' count).symm.trans start
    have last := (relabels.moveOffset_eq solid fits fits' (count + 1)).symm.trans stop
    cases span'
    simp only at first last
    rw [← first, ← last]
  refine ⟨lexeme', span', stands', ?_, count, here, there⟩
  refine SpanVisitor.named_eq_ok_iff.mpr ⟨congrArg Except.ok text.symm, ?_⟩
  rw [here, there]
  exact relabels.span_remap solid fits fits' (place_le (Nat.le_succ count))

end Relabels

end Lexeme

end GoRefactor
