import GoRefactor.Error
import GoRefactor.Go.Walk
import GoRefactor.Proofs.Go.Parser.Cursor

/-!
# One scan in the mirror of another

Two texts whose tokens differ in the spelling and place of names only are read the same way, and
what is read from one is what is read from the other, with names and spans exchanged. A `Mirror`
says how: which visitor exchanges names and spans, where offsets go, and which tokens the second
text has behind the last one of the first. In the last case the two scans go together only as
long as the first one does not reach its end, so a mirror also bounds the tokens that may be taken.

`Mirror.Tracks` relates two computations: from linked places they give related values and stop at
linked places. It holds of what reads tokens one by one and is kept by putting computations
together, which is all that the proofs about the parser's functions use.
-/

namespace GoRefactor

/-- The token can stand for a name: it is one, or the dot of an import. -/
def Token.Names (token : Token) : Prop := token.kind = .identifier ∨ token.is "." = true

/-- How the scan of one text stands to that of another. -/
structure Mirror where
  /-- What happens to names and spans. -/
  visitor : SpanVisitor (Except Fault)
  /-- Where an offset of the first text is in the second. -/
  move : Nat → Nat
  /-- The offsets at which tokens of the first text start and stop. -/
  Placed : Nat → Prop
  /-- Lone comments of the first text. -/
  notes : List Comment
  /-- Lone comments of the second text. -/
  imageNotes : List Comment
  /-- Tokens of the second text behind those of the first. -/
  more : List Token
  /-- How many tokens more the second scan has taken. -/
  lead : Nat
  /-- Number of tokens that the first scan may take. -/
  limit : Nat
  /-- The visitor exchanges the dots of imports, too. -/
  dots : Prop
  /-- Spans between such offsets go where their ends go. -/
  span_eq : ∀ {start stop : Nat}, Placed start → Placed stop → start ≤ stop →
    visitor.span ⟨start, stop⟩ = .ok ⟨move start, move stop⟩
  /-- The offsets stay in order. -/
  move_le : ∀ {start stop : Nat}, Placed start → Placed stop → start ≤ stop →
    move start ≤ move stop

namespace Mirror

/-- The visitor exchanges the name of the token. -/
def Names (m : Mirror) (token : Token) : Prop :=
  token.kind = .identifier ∨ m.dots ∧ token.is "." = true

/-- Spans up to an offset go where its ends go. -/
theorem span_upTo (m : Mirror) {start stop : Nat} (first : m.Placed start) (last : m.Placed stop) :
    m.visitor.span (Span.upTo start stop) = .ok (Span.upTo (m.move start) (m.move stop)) := by
  unfold Span.upTo
  rcases Nat.le_total start stop with order | order
  · rw [Nat.max_eq_left order, Nat.max_eq_left (m.move_le first last order)]
    exact m.span_eq first last order
  · rw [Nat.max_eq_right order, Nat.max_eq_right (m.move_le last first order)]
    exact m.span_eq first first (Nat.le_refl start)

/-- Two tokens at one place of the two streams. -/
structure Twin (m : Mirror) (token image : Token) : Prop extends token.Alike image where
  /-- Literals have the same text. -/
  literal : token.kind = .literal → image.text = token.text
  /-- The start is moved in order. -/
  start : m.Placed token.span.start
  /-- The stop is moved in order. -/
  stop : m.Placed token.span.stop
  /-- The token starts before it stops. -/
  order : token.span.start ≤ token.span.stop
  /-- The second token stands where the first one moves. -/
  span : image.span = ⟨m.move token.span.start, m.move token.span.stop⟩
  /-- What starts with the tokens has one doc comment. -/
  doc : docAbove m.imageNotes image.line = docAbove m.notes token.line

/-- A token has the span of its twin. -/
theorem Twin.span_eq {m : Mirror} {token image : Token} (twin : m.Twin token image) :
    m.visitor.span token.span = .ok image.span := by
  rw [twin.span]
  exact m.span_eq twin.start twin.stop twin.order

/-- Two tokens at one place of the two streams, and the second is named as the visitor says. -/
structure TokenImage (m : Mirror) (token image : Token) : Prop extends m.Twin token image where
  /-- The visitor exchanges the names. -/
  named : m.Names token → m.visitor.name token.text token.span = .ok image.text

/-- The visitor exchanges the name and place of a token for those of another. -/
def NameImage (m : Mirror) (token image : Token) : Prop :=
  m.visitor.named token.text token.span = .ok (image.text, image.span)

/-- A name that is taken is exchanged together with its place. -/
theorem TokenImage.nameImage {m : Mirror} {token image : Token} (twin : m.TokenImage token image)
    (named : token.kind = .identifier) : m.NameImage token image := by
  unfold NameImage SpanVisitor.named
  rw [twin.named (Or.inl named), twin.span_eq]
  rfl

/-- Two places of the two streams, with twins ahead. -/
structure Linked (m : Mirror) (place image : Cursor) : Prop where
  /-- The tokens ahead are twins, up to those that only the second stream has. -/
  twins : ∃ twins, image.ahead = twins ++ m.more ∧ List.Forall₂ m.Twin place.ahead twins
  /-- The visitor exchanges the names of tokens that may be taken. -/
  named : ∀ {count : Nat} {token twin : Token}, place.taken + count < m.limit →
    place.ahead[count]? = some token → image.ahead[count]? = some twin →
    m.Names token → m.visitor.name token.text token.span = .ok twin.text
  /-- The tokens that mark the ends are twins. -/
  finish : m.more = [] → m.Twin place.finish image.finish
  /-- The first of them marks an end. -/
  finishes : place.finish.kind = .finish
  /-- Where the second stream goes on, the first one is not taken to its end, a terminator. -/
  room : m.more = [] ∨ m.limit < place.taken + place.ahead.length ∧
    ∀ last, place.ahead.getLast? = some last → last.isTerminator = true
  /-- The places are where the mirror says. -/
  taken : image.taken = place.taken + m.lead
  /-- Spans up to here are exchanged. -/
  lastEnd : ∀ {start : Nat}, m.Placed start →
    m.visitor.span (Span.upTo start place.lastEnd) = .ok (Span.upTo (m.move start) image.lastEnd)
  /-- The comments are those of the first text. -/
  notes : place.notes = m.notes
  /-- The comments are those of the second text. -/
  imageNotes : image.notes = m.imageNotes

namespace Linked

variable {m : Mirror} {place image : Cursor}

/-- The tokens ahead are alike, up to those that only the second stream has. -/
theorem alike (linked : m.Linked place image) :
    ∃ twins, image.ahead = twins ++ m.more ∧ List.Forall₂ Token.Alike place.ahead twins := by
  obtain ⟨twins, ahead, related⟩ := linked.twins
  exact ⟨twins, ahead, related.imp fun _ _ twin => twin.toAlike⟩

/-- Linked places stay linked when a token is taken, if it may be. -/
theorem advance (linked : m.Linked place image) (inside : place.advance.taken ≤ m.limit) :
    m.Linked place.advance image.advance := by
  obtain ⟨twins, ahead, related⟩ := linked.twins
  cases next : place.ahead with
  | nil =>
    have closed : m.more = [] := by
      rcases linked.room with closed | ⟨short, _⟩
      · exact closed
      · rw [Cursor.advance_of_nil next] at inside
        rw [next, List.length_nil] at short
        omega
    have done : image.ahead = [] := by
      rw [next] at related
      cases related
      rw [ahead, closed]
      rfl
    rw [Cursor.advance_of_nil next, Cursor.advance_of_nil done]
    exact linked
  | cons token rest =>
    rw [next] at related
    obtain _ | @⟨_, twin, _, rest', first, tail⟩ := related
    have next' : image.ahead = twin :: (rest' ++ m.more) := ahead
    have counted : place.advance.taken = place.taken + 1 := by
      rw [Cursor.advance_of_cons next]
    rw [Cursor.advance_of_cons next, Cursor.advance_of_cons next']
    refine ⟨⟨rest', rfl, tail⟩, ?_, linked.finish, linked.finishes, ?_, ?_, ?_, linked.notes,
      linked.imageNotes⟩
    · intro count named namedTwin below stands stands'
      have deeper : place.taken + (count + 1) < m.limit := by
        simp only at below
        omega
      refine linked.named deeper ?_ ?_
      · rw [next]
        exact stands
      · rw [next']
        exact stands'
    · rcases linked.room with closed | ⟨short, ends⟩
      · exact Or.inl closed
      · rw [next, List.length_cons] at short
        refine Or.inr ⟨by simp only; omega, ?_⟩
        intro last isLast
        refine ends last ?_
        rw [next]
        cases rest with
        | nil => simp at isLast
        | cons second others => simpa using isLast
    · rw [linked.taken]
      simp only
      omega
    · intro start placed
      simp only [first.isTerminator_eq]
      split
      · exact linked.lastEnd placed
      · rw [first.span]
        exact m.span_upTo placed first.stop

/-- Linked places stay linked when tokens are taken, if they may be. -/
theorem advanceBy (linked : m.Linked place image) {count : Nat}
    (inside : (place.advanceBy count).taken ≤ m.limit) :
    m.Linked (place.advanceBy count) (image.advanceBy count) := by
  induction count generalizing place image with
  | zero => exact linked
  | succ count ih =>
    refine ih (linked.advance ?_) inside
    exact Nat.le_trans (Cursor.taken_le_advanceBy count place.advance) inside

/-- Tokens ahead are twins as far as the first stream goes. -/
theorem peekAt (linked : m.Linked place image) {count : Nat}
    (inside : m.more = [] ∨ count < place.ahead.length) :
    m.Twin (place.peekAt count) (image.peekAt count) := by
  obtain ⟨twins, ahead, related⟩ := linked.twins
  have lengths := related.length_eq
  unfold Cursor.peekAt
  by_cases below : count < place.ahead.length
  · rw [ahead, List.getElem?_append_left (by omega), List.getElem?_eq_getElem below,
      List.getElem?_eq_getElem (by omega : count < twins.length)]
    exact related.get below (by omega)
  · have closed : m.more = [] := inside.resolve_right below
    rw [ahead, closed, List.append_nil, List.getElem?_eq_none (by omega),
      List.getElem?_eq_none (by omega)]
    exact linked.finish closed

/-- While tokens may be taken, the first stream has one more. -/
theorem inside (linked : m.Linked place image) (below : place.taken ≤ m.limit) :
    m.more = [] ∨ 0 < place.ahead.length := by
  rcases linked.room with closed | ⟨short, _⟩
  · exact Or.inl closed
  · exact Or.inr (by omega)

/-- Behind a token that is no terminator the first stream has one more. -/
theorem inside_behind (linked : m.Linked place image) {count : Nat}
    (inside : m.more = [] ∨ count < place.ahead.length)
    (goesOn : (place.peekAt count).isTerminator = false) :
    m.more = [] ∨ count + 1 < place.ahead.length := by
  rcases linked.room with closed | ⟨_, ends⟩
  · exact Or.inl closed
  · rcases inside with closed | below
    · exact Or.inl closed
    · refine Or.inr ?_
      by_contra short
      have last : place.ahead.getLast? = some (place.peekAt count) := by
        rw [List.getLast?_eq_getElem?, show place.ahead.length - 1 = count by omega]
        unfold Cursor.peekAt
        rw [List.getElem?_eq_getElem below]
        rfl
      rw [ends _ last] at goesOn
      exact absurd goesOn (by decide)

/-- A number of tokens that depends on what the parser can tell is the same at linked places, if
so many may be taken. -/
theorem count_eq (linked : m.Linked place image) (count : List Token → Nat)
    (bounded : ∀ tokens, count tokens ≤ tokens.length)
    (settled : ∀ tokens more, count tokens < tokens.length →
      count (tokens ++ more) = count tokens)
    (alike : ∀ {left right}, List.Forall₂ Token.Alike left right → count right = count left)
    (inside : (place.advanceBy (count place.ahead)).taken ≤ m.limit) :
    count image.ahead = count place.ahead := by
  obtain ⟨twins, ahead, related⟩ := linked.alike
  rw [ahead]
  rcases linked.room with closed | ⟨short, _⟩
  · rw [closed, List.append_nil]
    exact alike related
  · rw [Cursor.taken_advanceBy (bounded place.ahead)] at inside
    have fewer : count twins < twins.length := by
      rw [alike related, ← related.length_eq]
      omega
    rw [settled twins m.more fewer]
    exact alike related

end Linked

end Mirror

end GoRefactor
