import GoRefactor.Proofs.Go.Parser.Cursor
import GoRefactor.Proofs.Go.Token.Relabel
import Mathlib.Algebra.GroupWithZero.Nat

/-!
# Tokens and comments in their places

Tokens and comments are laid out from the lexemes of a text. Other names in the text, another
place for it, and more text behind it move tokens and comments, and change nothing else about
them: which lexemes make tokens, and where terminators are inserted, does not depend on the place.
-/

namespace GoRefactor

namespace Lexeme

/-- A lexeme makes the same token at every place. -/
theorem token?_move (lexeme : Lexeme) (offset line offset' line' : Nat) :
    lexeme.token? offset' line' = (lexeme.token? offset line).map fun token =>
      { token with span := ⟨offset', offset' + byteLength lexeme.text⟩, line := line' } := by
  cases lexeme <;> rfl

/-- A token covers its lexeme. -/
theorem token?_eq_some {lexeme : Lexeme} {offset line : Nat} {token : Token}
    (made : lexeme.token? offset line = some token) :
    token.span = ⟨offset, offset + byteLength lexeme.text⟩ ∧ token.line = line := by
  have moved := lexeme.token?_move offset line offset line
  rw [made, Option.map_some] at moved
  rw [Option.some.inj moved]
  exact ⟨rfl, rfl⟩

/-- Two tokens of the same lexeme, or of a name and the name in its place. -/
structure Paired (edits : List Edit) (boundary : Nat → Nat → Prop) (offset line line' : Nat)
    (token image : Token) : Prop extends token.Alike image where
  /-- Literals have the same text. -/
  literal : token.kind = .literal → image.text = token.text
  /-- They start at corresponding places. -/
  start : boundary token.span.start image.span.start
  /-- They stop at corresponding places. -/
  stop : boundary token.span.stop image.span.stop
  /-- The token stands at or behind the offset. -/
  behind : offset ≤ token.span.start
  /-- The token starts before it stops. -/
  order : token.span.start ≤ token.span.stop
  /-- They are as many lines from where the texts start. -/
  lines : image.line + line = token.line + line'
  /-- What stands at the place of an edit is replaced. -/
  name : image.text = (Edit.replacementAt edits token.span).getD token.text

/-- Tokens are paired from an earlier offset and line too. -/
theorem Paired.earlier {edits : List Edit} {boundary : Nat → Nat → Prop}
    {offset length line line' lines : Nat} {token image : Token}
    (paired : Paired edits boundary (offset + length) (line + lines) (line' + lines) token image) :
    Paired edits boundary offset line line' token image where
  toAlike := paired.toAlike
  literal := paired.literal
  start := paired.start
  stop := paired.stop
  behind := Nat.le_trans (Nat.le_add_right offset length) paired.behind
  order := paired.order
  lines := by
    have same := paired.lines
    omega
  name := paired.name

/-- An edit in front of a token does not replace its name. -/
theorem Paired.cons {edits : List Edit} {boundary : Nat → Nat → Prop} {offset line line' : Nat}
    {token image : Token} {edit : Edit} (before : edit.span.start < offset)
    (paired : Paired edits boundary offset line line' token image) :
    Paired (edit :: edits) boundary offset line line' token image where
  toAlike := paired.toAlike
  literal := paired.literal
  start := paired.start
  stop := paired.stop
  behind := paired.behind
  order := paired.order
  lines := paired.lines
  name := by
    have behind := paired.behind
    have other : (!edit.span.isEmpty && edit.span == token.span) = false := by
      rw [Bool.and_eq_false_iff]
      refine Or.inr (beq_false_of_ne ?_)
      intro same
      rw [same] at before
      omega
    have name := paired.name
    unfold Edit.replacementAt at name ⊢
    rw [List.find?_cons, other]
    exact name

/-- The terminator inserted at a place is paired with the one at the corresponding place. -/
theorem paired_point {edits : List Edit} {boundary : Nat → Nat → Prop} {offset offset' : Nat}
    (here : boundary offset offset') (line line' : Nat) (kind : TokenKind) :
    Paired edits boundary offset line line' ⟨kind, "", Span.point offset, line⟩
      ⟨kind, "", Span.point offset', line'⟩ where
  kind := rfl
  text _ := rfl
  literal _ := rfl
  start := here
  stop := here
  behind := Nat.le_refl _
  order := Nat.le_refl _
  lines := Nat.add_comm _ _
  name := by
    -- No edit puts anything in place of nothing.
    have unedited : Edit.replacementAt edits (Span.point offset) = none := by
      unfold Edit.replacementAt
      rw [Option.map_eq_none_iff, List.find?_eq_none]
      intro edit _ replaced
      obtain ⟨filled, same⟩ := Bool.and_eq_true_iff.mp replaced
      rw [eq_of_beq same] at filled
      simp [Span.isEmpty, Span.point] at filled
    rw [unedited]
    rfl

/-- Terminators are inserted at corresponding places. -/
theorem paired_inserted {edits : List Edit} {boundary : Nat → Nat → Prop} {offset offset' : Nat}
    (here : boundary offset offset') (line line' : Nat) (closable : Bool) :
    List.Forall₂ (Paired edits boundary offset line line') (inserted closable offset line)
      (inserted closable offset' line') := by
  cases closable with
  | false => exact .nil
  | true => exact .cons (paired_point here line line' _) .nil

/-- No edit replaces what starts before the offset. -/
theorem Relabels.replacementAt_eq_none {offset : Nat} {lexemes lexemes' : List Lexeme}
    {edits : List Edit} (relabels : Relabels offset lexemes edits lexemes') (solid : Solid lexemes)
    {span : Span} (before : span.start < offset) : Edit.replacementAt edits span = none := by
  unfold Edit.replacementAt
  rw [Option.map_eq_none_iff, List.find?_eq_none]
  intro edit member replaced
  have behind := relabels.edit_mem solid member
  have same := eq_of_beq (Bool.and_eq_true_iff.mp replaced).2
  rw [same] at behind
  omega

/-- Places that correspond between lexemes correspond between those behind the first. -/
theorem places_tail {boundary : Nat → Nat → Prop} {offset offset' : Nat} {head head' : Lexeme}
    {rest rest' : List Lexeme}
    (places : ∀ count, boundary (offset + byteLength (flat ((head :: rest).take count)))
      (offset' + byteLength (flat ((head' :: rest').take count)))) (count : Nat) :
    boundary (offset + byteLength head.text + byteLength (flat (rest.take count)))
      (offset' + byteLength head'.text + byteLength (flat (rest'.take count))) := by
  simpa [Nat.add_assoc] using places (count + 1)

/-- Names in place of names leave the tokens paired. -/
theorem Relabels.tokens {offset : Nat} {lexemes lexemes' : List Lexeme} {edits : List Edit}
    (relabels : Relabels offset lexemes edits lexemes') (solid : Solid lexemes)
    {boundary : Nat → Nat → Prop} {offset' : Nat} (line line' : Nat) (closable : Bool)
    (places : ∀ count, boundary (offset + byteLength (flat (lexemes.take count)))
      (offset' + byteLength (flat (lexemes'.take count)))) :
    List.Forall₂ (Paired edits boundary offset line line') (tokensFrom offset line closable lexemes)
      (tokensFrom offset' line' closable lexemes') := by
  induction relabels generalizing offset' line line' closable with
  | done offset =>
    rw [tokensFrom, tokensFrom]
    exact List.rel_append (paired_inserted (places 0) line line' closable)
      (.cons (paired_point (places 0) line line' _) .nil)
  | @keep offset lexeme rest rest' edits others ih =>
    have further (closable : Bool) :=
      ih solid.tail (line + lexeme.lines) (line' + lexeme.lines) closable (places_tail places)
    have here : boundary offset offset' := by simpa using places 0
    have there : boundary (offset + byteLength lexeme.text) (offset' + byteLength lexeme.text) := by
      simpa using places 1
    rw [tokensFrom, tokensFrom, lexeme.token?_move offset line offset' line']
    cases made : lexeme.token? offset line with
    | none =>
      simp only [Option.map_none]
      split
      · exact List.rel_append (paired_inserted here line line' closable)
          ((further false).imp fun _ _ => Paired.earlier)
      · exact (further closable).imp fun _ _ => Paired.earlier
    | some token =>
      obtain ⟨span, onLine⟩ := token?_eq_some made
      have unedited : Edit.replacementAt edits token.span = none := by
        have positive := solid.head
        refine others.replacementAt_eq_none solid.tail ?_
        rw [span]
        simp only
        omega
      refine .cons ?_ ((further token.closes).imp fun _ _ => Paired.earlier)
      refine ⟨⟨rfl, fun _ => rfl⟩, fun _ => rfl, ?_, ?_, ?_, ?_, ?_, ?_⟩
      · rw [span]
        exact here
      · rw [span]
        exact there
      · rw [span]
      · rw [span]
        exact Nat.le_add_right _ _
      · rw [onLine]
        exact Nat.add_comm _ _
      · rw [unedited]
        rfl
  | @swap offset edit text rest rest' edits covers old new others ih =>
    have further := ih solid.tail (line + 0) (line' + 0) true (places_tail places)
    have here : boundary offset offset' := by simpa using places 0
    have there : boundary (offset + byteLength text)
        (offset' + byteLength edit.replacement.toList) := by
      simpa [Lexeme.text] using places 1
    obtain ⟨starts, nonempty⟩ := (Relabels.swap edit covers old new others).edit_mem solid
      List.mem_cons_self
    have isNew : isKeyword (String.ofList edit.replacement.toList) = false := by
      rw [String.ofList_toList]
      exact (isWord_of_name new).2
    have before : edit.span.start < offset + byteLength text := by
      rw [covers] at nonempty ⊢
      exact nonempty
    simp only [tokensFrom, token?, old, isNew, Bool.false_eq_true, if_false]
    refine .cons ?_ (further.imp fun _ _ paired => (paired.cons before).earlier)
    refine ⟨⟨rfl, fun other => ?_⟩, fun other => ?_, here, there, Nat.le_refl _,
      Nat.le_add_right _ _, Nat.add_comm _ _, ?_⟩
    · rcases other with keyword | mark
      · cases keyword
      · cases mark
    · cases other
    have found :
        (!edit.span.isEmpty && edit.span == ⟨offset, offset + byteLength text⟩) = true := by
      rw [covers]
      rw [covers] at nonempty
      simp only [Span.isEmpty, beq_self_eq_true, Bool.and_true, Bool.not_eq_true',
        beq_eq_false_iff_ne, ne_eq]
      exact Nat.ne_of_lt nonempty
    unfold Edit.replacementAt
    rw [List.find?_cons, found]
    exact String.ofList_toList

section More

/-- Number of line breaks that lexemes count. -/
def lineCount (lexemes : List Lexeme) : Nat := (lexemes.map lines).sum

/-- The lines of the first lexeme come first. -/
@[simp]
theorem lineCount_cons (lexeme : Lexeme) (rest : List Lexeme) :
    lineCount (lexeme :: rest) = lexeme.lines + lineCount rest := rfl

/-- Lexemes end as many lines as their front and their back together. -/
@[simp]
theorem lineCount_append (front back : List Lexeme) :
    lineCount (front ++ back) = lineCount front + lineCount back := by
  unfold lineCount
  rw [List.map_append, List.sum_append]

/-- The last token marks the end of the text. -/
theorem getLast?_tokensFrom (offset line : Nat) (closable : Bool) (lexemes : List Lexeme) :
    (tokensFrom offset line closable lexemes).getLast? =
      some ⟨.finish, "", Span.point (offset + byteLength (flat lexemes)),
        line + lineCount lexemes⟩ := by
  induction lexemes generalizing offset line closable with
  | nil => rw [tokensFrom, List.getLast?_concat]; rfl
  | cons lexeme rest ih =>
    have further (closable : Bool) :=
      ih (offset + byteLength lexeme.text) (line + lexeme.lines) closable
    rw [flat_cons, byteLength_append, lineCount_cons, ← Nat.add_assoc, ← Nat.add_assoc, tokensFrom]
    cases lexeme.token? offset line with
    | some token =>
      simp only
      rw [List.getLast?_cons, further token.closes]
      rfl
    | none =>
      simp only
      split
      · rw [List.getLast?_append, further false]
        rfl
      · exact further closable

/-- There is always a token. -/
theorem tokensFrom_ne_nil (offset line : Nat) (closable : Bool) (lexemes : List Lexeme) :
    tokensFrom offset line closable lexemes ≠ [] := by
  intro none
  have last := getLast?_tokensFrom offset line closable lexemes
  rw [none] at last
  cases last

/-- Behind a line break the tokens of more text follow those of the text, without the one that marks
its end. -/
theorem tokensFrom_append_newline (offset line : Nat) (closable : Bool)
    (lexemes more : List Lexeme) :
    tokensFrom offset line closable (lexemes ++ .newline :: more) =
      (tokensFrom offset line closable lexemes).dropLast ++
        tokensFrom (offset + byteLength (flat lexemes) + 1) (line + lineCount lexemes + 1) false
          more := by
  induction lexemes generalizing offset line closable with
  | nil =>
    rw [tokensFrom, List.dropLast_concat]
    rfl
  | cons lexeme rest ih =>
    have further (closable : Bool) :=
      ih (offset + byteLength lexeme.text) (line + lexeme.lines) closable
    rw [List.cons_append, flat_cons, byteLength_append, lineCount_cons, ← Nat.add_assoc,
      ← Nat.add_assoc, tokensFrom, tokensFrom]
    cases lexeme.token? offset line with
    | some token =>
      simp only
      rw [further token.closes, List.dropLast_cons_of_ne_nil (tokensFrom_ne_nil _ _ _ _)]
      rfl
    | none =>
      simp only
      split
      · rw [further false, List.dropLast_append_of_ne_nil (tokensFrom_ne_nil _ _ _ _),
          List.append_assoc]
      · exact further closable

/-- What makes a token that starts in front of lexemes. -/
inductive Makes : List Lexeme → Token → Prop
  /-- The first lexeme. -/
  | written {lexeme : Lexeme} {rest : List Lexeme} {token : Token} (offset line : Nat)
    (made : lexeme.token? offset line = some token) : Makes (lexeme :: rest) token
  /-- A line break, or the end, behind a statement that can end. -/
  | inserted {lexemes : List Lexeme} (offset line : Nat)
    (breaks : ∀ lexeme ∈ lexemes.head?, lexeme.breaksLine = true) :
    Makes lexemes ⟨.terminator, "", Span.point offset, line⟩
  /-- The end. -/
  | finish (offset line : Nat) : Makes [] ⟨.finish, "", Span.point offset, line⟩

/-- **Where a token starts and what makes it there.** -/
theorem exists_makes_of_mem_tokensFrom {offset line : Nat} {closable : Bool}
    {lexemes : List Lexeme} {token : Token}
    (member : token ∈ tokensFrom offset line closable lexemes) :
    ∃ front back, lexemes = front ++ back ∧
      token.span.start = offset + byteLength (flat front) ∧
      token.line = line + lineCount front ∧ Makes back token := by
  have insertion {closable : Bool} {offset line : Nat} {lexemes : List Lexeme}
      (breaks : ∀ lexeme ∈ lexemes.head?, lexeme.breaksLine = true)
      (here : token ∈ inserted closable offset line) :
      ∃ front back, lexemes = front ++ back ∧
        token.span.start = offset + byteLength (flat front) ∧
        token.line = line + lineCount front ∧ Makes back token := by
    cases closable with
    | false => cases here
    | true =>
      rw [List.mem_singleton.mp here]
      exact ⟨[], lexemes, rfl, rfl, rfl, .inserted offset line breaks⟩
  induction lexemes generalizing offset line closable with
  | nil =>
    rw [tokensFrom] at member
    rcases List.mem_append.mp member with here | here
    · exact insertion (fun _ none => nomatch none) here
    · rw [List.mem_singleton.mp here]
      exact ⟨[], [], rfl, rfl, rfl, .finish offset line⟩
  | cons lexeme rest ih =>
    have later {closable : Bool} (held : token ∈ tokensFrom (offset + byteLength lexeme.text)
        (line + lexeme.lines) closable rest) :
        ∃ front back, lexeme :: rest = front ++ back ∧
          token.span.start = offset + byteLength (flat front) ∧
          token.line = line + lineCount front ∧ Makes back token := by
      obtain ⟨front, back, rfl, start, lines, makes⟩ := ih held
      refine ⟨lexeme :: front, back, rfl, ?_, ?_, makes⟩
      · rw [start, flat_cons, byteLength_append, Nat.add_assoc]
      · rw [lines, lineCount_cons, Nat.add_assoc]
    rw [tokensFrom] at member
    cases made : lexeme.token? offset line with
    | some first =>
      rw [made] at member
      rcases List.mem_cons.mp member with rfl | behind
      · obtain ⟨span, onLine⟩ := token?_eq_some made
        exact ⟨[], lexeme :: rest, rfl, by rw [span]; rfl, onLine, .written offset line made⟩
      · exact later behind
    | none =>
      rw [made] at member
      simp only at member
      split at member
      · rename_i breaks
        rcases List.mem_append.mp member with here | behind
        · refine insertion (fun first heads => ?_) here
          rw [← Option.some.inj heads]
          exact breaks
        · exact later behind
      · exact later member

/-- A lexeme that makes a token has it among the tokens. -/
theorem mem_tokensFrom_of_token? {front back : List Lexeme} {lexeme : Lexeme} {offset line : Nat}
    {token : Token} (made : lexeme.token? (offset + byteLength (flat front))
      (line + lineCount front) = some token) (closable : Bool) :
    token ∈ tokensFrom offset line closable (front ++ lexeme :: back) := by
  induction front generalizing offset line closable with
  | nil =>
    rw [List.nil_append, tokensFrom, show lexeme.token? offset line = some token from made]
    exact List.mem_cons_self
  | cons first rest ih =>
    rw [flat_cons, byteLength_append, lineCount_cons, ← Nat.add_assoc, ← Nat.add_assoc] at made
    rw [List.cons_append, tokensFrom]
    split
    · exact List.mem_cons_of_mem _ (ih made _)
    · split
      · exact List.mem_append_right _ (ih made _)
      · exact ih made _

/-- Tokens stand on the lines of the text. -/
theorem line_of_mem_tokensFrom {offset line : Nat} {closable : Bool} {lexemes : List Lexeme}
    {token : Token} (member : token ∈ tokensFrom offset line closable lexemes) :
    line ≤ token.line ∧ token.line ≤ line + lineCount lexemes := by
  obtain ⟨front, back, rfl, -, onLine, -⟩ := exists_makes_of_mem_tokensFrom member
  rw [onLine, lineCount_append]
  omega

end More

section Comments

/-- Comments of more text follow those of the text. -/
theorem commentsFrom_append (line : Nat) (front back : List Lexeme) :
    commentsFrom line (front ++ back) =
      commentsFrom line front ++ commentsFrom (line + lineCount front) back := by
  induction front generalizing line with
  | nil => rfl
  | cons lexeme rest ih =>
    rw [List.cons_append, lineCount_cons, ← Nat.add_assoc]
    cases lexeme <;> simp [commentsFrom, ih]

/-- A comment some lines further down. -/
def movedDown (lines : Nat) (comment : Comment) : Comment :=
  { comment with startLine := comment.startLine + lines, endLine := comment.endLine + lines }

/-- Comments of a text that starts further down are further down. -/
theorem commentsFrom_add (line more : Nat) (lexemes : List Lexeme) :
    commentsFrom (line + more) lexemes = (commentsFrom line lexemes).map (movedDown more) := by
  induction lexemes generalizing line with
  | nil => rfl
  | cons lexeme rest ih =>
    have further := ih (line + lexeme.lines)
    rw [Nat.add_right_comm] at further
    cases lexeme <;> simp_all [commentsFrom, movedDown, Nat.add_right_comm]

/-- Comments stand on the lines of the text. -/
theorem lines_of_mem_commentsFrom {line : Nat} {lexemes : List Lexeme} {comment : Comment}
    (member : comment ∈ commentsFrom line lexemes) :
    line ≤ comment.startLine ∧ comment.startLine ≤ comment.endLine ∧
      comment.endLine ≤ line + lineCount lexemes := by
  induction lexemes generalizing line with
  | nil => cases member
  | cons lexeme rest ih =>
    rw [lineCount_cons]
    have deeper (later : comment ∈ commentsFrom (line + lexeme.lines) rest) := ih later
    cases lexeme with
    | lineComment body =>
      rw [commentsFrom] at member
      rcases List.mem_cons.mp member with rfl | later
      · exact ⟨Nat.le_refl _, Nat.le_refl _, Nat.le_add_right _ _⟩
      · have bounds := deeper later
        omega
    | blockComment body =>
      rw [commentsFrom] at member
      rcases List.mem_cons.mp member with rfl | later
      · refine ⟨Nat.le_refl _, Nat.le_add_right _ _, ?_⟩
        simp only [Lexeme.lines]
        omega
      · have bounds := deeper later
        omega
    | _ =>
      have bounds := deeper member
      omega

end Comments

end Lexeme

end GoRefactor
