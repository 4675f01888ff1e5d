import GoRefactor.Proofs.Go.Token.Partition
import GoRefactor.Proofs.Text.Position

/-!
# Lines of tokens and comments

A scan counts lines while it goes on. It counts the line breaks between tokens, in comments and in
raw strings, and does not count those that are escaped in strings and runes with quotes. So the
lines of tokens and comments are those of the line index, less the line breaks in quoted literals in
front.
-/

namespace GoRefactor

/-- The token is a string or rune with quotes. -/
def Token.isQuoted (token : Token) : Bool :=
  token.kind == .literal && token.text.toList.head?.any fun c => c == '"' || c == '\x27'

/-- Line breaks in the quoted literals among tokens that stop in front of an offset. -/
def quotedBreaks (offset : Nat) (tokens : List Token) : Nat :=
  ((tokens.filter fun token => token.isQuoted && decide (token.span.stop ≤ offset)).map
    fun token => Lexeme.lineBreaks token.text.toList).sum

/-- Breaks inside tokens are those inside the first one and those inside the others. -/
theorem quotedBreaks_cons (offset : Nat) (token : Token) (rest : List Token) :
    quotedBreaks offset (token :: rest) =
      (if token.isQuoted = true ∧ token.span.stop ≤ offset then
        Lexeme.lineBreaks token.text.toList else 0) + quotedBreaks offset rest := by
  unfold quotedBreaks
  rw [List.filter_cons]
  simp only [Bool.and_eq_true, decide_eq_true_eq]
  split
  · rw [List.map_cons, List.sum_cons]
  · rw [Nat.zero_add]

namespace Lexeme

/-- Line breaks that a lexeme covers and that are not counted. -/
def uncounted : Lexeme → Nat
  | .quoted text => lineBreaks text
  | _ => 0

/-- Numbers go on with characters that break no line. -/
theorem newline_not_mem_numberTail (hexadecimal : Bool) (last : Char) (cs : List Char) :
    '\n' ∉ numberTail hexadecimal last cs := by
  induction cs generalizing last with
  | nil => exact List.not_mem_nil
  | cons c cs ih =>
    rw [numberTail]
    split
    · rename_i goesOn
      refine List.not_mem_cons_of_ne_of_not_mem (fun same => ?_) (ih c)
      rw [← same] at goesOn
      simp [isAsciiAlphanumeric] at goesOn
    · exact List.not_mem_nil

/-- **The line breaks that a lexeme covers are counted, but for those in a quoted literal.** -/
theorem lineBreaks_text {lexeme : Lexeme} {c : Char} {inner back : List Char}
    (text : lexeme.text = c :: inner) (form : lexeme.Form c (inner ++ back)) :
    lineBreaks lexeme.text = lexeme.lines + lexeme.uncounted := by
  have none (unbroken : '\n' ∉ lexeme.text) : lineBreaks lexeme.text = 0 :=
    List.count_eq_zero_of_not_mem unbroken
  cases lexeme with
  | newline | semicolon => rfl
  | quoted text => exact (Nat.zero_add _).symm
  | raw text => rfl
  | blank b =>
    obtain ⟨rfl, space⟩ := form
    refine none (fun broken => ?_)
    rw [← List.mem_singleton.mp broken] at space
    exact absurd space (by decide)
  | foreign b =>
    obtain ⟨rfl, above, -⟩ := form
    refine none (fun broken => ?_)
    rw [← List.mem_singleton.mp broken] at above
    exact absurd above (by decide)
  | lineComment body =>
    obtain ⟨-, behind, -, rfl⟩ := form
    refine none (fun broken => ?_)
    have inBody : '\n' ∈ behind.takeWhile (· != '\n') := by simpa [Lexeme.text] using broken
    exact absurd (List.all_eq_true.mp List.all_takeWhile '\n' inBody) (by decide)
  | blockComment body => simp [Lexeme.text, lineBreaks, lines, uncounted, List.count_append]
  | word word =>
    obtain ⟨rfl, starts⟩ := form
    refine none (fun broken => ?_)
    rcases List.mem_cons.mp broken with rfl | later
    · exact absurd starts (by decide)
    · exact absurd (List.all_eq_true.mp List.all_takeWhile '\n' later) (by decide)
  | number number =>
    obtain ⟨rfl, starts⟩ := form
    refine none (fun broken => ?_)
    rcases List.mem_cons.mp broken with rfl | later
    · simp [startsNumber] at starts
    · exact newline_not_mem_numberTail _ _ _ later
  | mark mark =>
    obtain ⟨rfl, other, -⟩ := form
    refine none (fun broken => ?_)
    rw [Lexeme.text, markText] at broken
    split at broken
    · rename_i known found
      exact (mark_chars known (List.mem_of_find?_eq_some found) '\n' broken).1 rfl
    · exact other (List.mem_singleton.mp broken).symm

/-- Of the lexemes only a quoted literal makes a token that is one. -/
theorem breaks_of_token? {lexeme : Lexeme} {c : Char} {inner back : List Char}
    (text : lexeme.text = c :: inner) (form : lexeme.Form c (inner ++ back)) {offset line : Nat}
    {token : Token} (made : lexeme.token? offset line = some token) :
    (if token.isQuoted = true then lineBreaks token.text.toList else 0) = lexeme.uncounted := by
  cases lexeme with
  | quoted quoted =>
    cases made
    obtain ⟨quote, body, rfl, -⟩ := form
    rcases quote with rfl | rfl <;> simp [Token.isQuoted, uncounted]
  | number number =>
    cases made
    obtain ⟨rfl, starts⟩ := form
    have other : c ≠ '"' ∧ c ≠ '\x27' := by
      constructor <;> rintro rfl <;> simp [startsNumber] at starts
    simp [Token.isQuoted, uncounted, other]
  | raw raw =>
    cases made
    obtain ⟨rfl, body, rfl, -⟩ := form
    simp [Token.isQuoted, uncounted]
  | word word =>
    cases made
    simp only [Token.isQuoted, uncounted]
    split <;> simp
  | semicolon | mark => cases made; rfl
  | _ => cases made

/-- Lexemes that make no token have no uncounted line break. -/
theorem uncounted_of_token?_eq_none {lexeme : Lexeme} {offset line : Nat}
    (none : lexeme.token? offset line = none) : lexeme.uncounted = 0 := by
  cases lexeme with
  | quoted => cases none
  | _ => rfl

/-- Tokens that are not quoted literals break no line without being counted. -/
theorem quotedBreaks_inserted (offset : Nat) (closable : Bool) (offset' line : Nat)
    (tokens : List Token) :
    quotedBreaks offset (inserted closable offset' line ++ tokens) =
      quotedBreaks offset tokens := by
  cases closable with
  | false => rfl
  | true => exact (quotedBreaks_cons _ _ _).trans (Nat.zero_add _)

/-- Tokens behind an offset break no line in front of it. -/
theorem quotedBreaks_behind (offset line : Nat) (closable : Bool) (lexemes : List Lexeme) :
    quotedBreaks offset (tokensFrom offset line closable lexemes) = 0 := by
  have none : (tokensFrom offset line closable lexemes).filter (fun token =>
      token.isQuoted && decide (token.span.stop ≤ offset)) = [] := by
    refine List.filter_eq_nil_iff.mpr (fun token member both => ?_)
    obtain ⟨quoted, before⟩ := Bool.and_eq_true_iff.mp both
    obtain ⟨front, back, -, span⟩ := tokensFrom_covers member
    rw [decide_eq_true_eq, span] at before
    cases text : token.text.toList with
    | nil => simp [Token.isQuoted, text] at quoted
    | cons c cs =>
      have some_bytes := byteLength_pos c cs
      rw [text] at before
      dsimp only at before
      omega
  rw [quotedBreaks, none]
  rfl

/-- **The breaks in quoted literals in front of a place are those that are not counted.** -/
theorem quotedBreaks_tokensFrom {front back : List Lexeme} (cut : Cut (front ++ back))
    (offset line : Nat) (closable : Bool) :
    quotedBreaks (offset + byteLength (flat front))
      (tokensFrom offset line closable (front ++ back)) = (front.map uncounted).sum := by
  induction front generalizing offset line closable with
  | nil => exact quotedBreaks_behind offset line closable back
  | cons lexeme rest ih =>
    obtain ⟨c, inner, text, leads⟩ := leads_iff.mp cut.1
    have further (closable : Bool) :=
      ih cut.2 (offset + byteLength lexeme.text) (line + lexeme.lines) closable
    rw [flat_cons, byteLength_append, ← Nat.add_assoc, List.map_cons, List.sum_cons,
      List.cons_append, tokensFrom]
    cases made : lexeme.token? offset line with
    | some token =>
      have before : token.span.stop ≤ offset + byteLength lexeme.text + byteLength (flat rest) := by
        rw [(token?_eq_some made).1]
        exact Nat.le_add_right _ _
      simp only [quotedBreaks_cons, before, and_true]
      rw [further, breaks_of_token? text (form_of_next leads) made]
    | none =>
      rw [uncounted_of_token?_eq_none made, Nat.zero_add]
      simp only
      split
      · rw [quotedBreaks_inserted, further]
      · exact further closable

/-- **The line breaks in front of a place are counted, but for those in quoted literals.** -/
theorem lineBreaks_flat {front back : List Lexeme} (cut : Cut (front ++ back)) (line : Nat)
    (closable : Bool) :
    lineBreaks (flat front) = lineCount front +
      quotedBreaks (byteLength (flat front)) (tokensFrom 0 line closable (front ++ back)) := by
  have before := quotedBreaks_tokensFrom cut 0 line closable
  rw [Nat.zero_add] at before
  rw [before]
  clear before
  induction front with
  | nil => rfl
  | cons lexeme rest ih =>
    obtain ⟨c, inner, text, leads⟩ := leads_iff.mp cut.1
    have here := lineBreaks_text text (form_of_next leads)
    have further := ih cut.2
    rw [lineBreaks] at here further ⊢
    rw [flat_cons, List.count_append, here, further, lineCount_cons, List.map_cons, List.sum_cons]
    omega

end Lexeme

/-- The line that an index gives is one more than the line breaks in front. -/
theorem LineIndex.line_position (front back : List Char) :
    ((ofChars (front ++ back)).position (byteLength front)).line =
      UInt32.ofNat (Lexeme.lineBreaks front + 1) := by
  obtain ⟨lines, part, rest, parts, size, -, unbroken, found⟩ :=
    @isAt_position front back
  have here : takeBytes? (byteLength front) (front ++ back) = some front :=
    takeBytes?_eq_some_iff.mpr ⟨back, rfl, rfl⟩
  have there : takeBytes? (byteLength front) (front ++ back) = some (lines ++ part) :=
    takeBytes?_eq_some_iff.mpr ⟨rest, parts, size⟩
  have same : front = lines ++ part := Option.some.inj (here.symm.trans there)
  rw [found, Lexeme.lineBreaks, same, List.count_append, List.count_eq_zero_of_not_mem unbroken,
    Nat.add_zero]

/-- The index finds the first and the last character of the comment on the lines that it tells,
further down by the line breaks in quoted literals in front of it. -/
def Comment.TellsLines (comment : Comment) (content : String) (tokens : List Token) (place : Span) :
    Prop :=
  ((LineIndex.ofText content).position place.start).line =
      UInt32.ofNat (comment.startLine + quotedBreaks place.start tokens) ∧
    ∃ last c rest, dropBytes? last content.toList = some (c :: rest) ∧
      last + c.utf8Size = place.stop ∧
      ((LineIndex.ofText content).position last).line =
        UInt32.ofNat (comment.endLine + quotedBreaks place.start tokens)

section Lines

variable {lexemes : List Lexeme} {content : String}

/-- The line at a place between lexemes. -/
theorem Lexeme.line_of_cut {front back : List Lexeme} (cut : Cut (front ++ back))
    (covers : content.toList = flat (front ++ back)) (closable : Bool) :
    ((LineIndex.ofText content).position (byteLength (flat front))).line =
      UInt32.ofNat (1 + lineCount front +
        quotedBreaks (byteLength (flat front)) (tokensFrom 0 1 closable (front ++ back))) := by
  rw [LineIndex.ofText, covers, flat_append, LineIndex.line_position,
    lineBreaks_flat cut 1 closable, Nat.add_comm _ 1, ← Nat.add_assoc]

/-- A comment ends as many lines further down as it has line breaks. -/
theorem Lexeme.lines_of_comment? {lexeme : Lexeme} {line : Nat} {comment : Comment}
    (found : lexeme.comment? line = some comment) :
    comment.startLine = line ∧ comment.endLine = line + lexeme.lines := by
  cases lexeme with
  | lineComment | blockComment =>
    cases found
    exact ⟨rfl, rfl⟩
  | _ => cases found

/-- All line breaks of a comment are in front of its last character. -/
theorem Lexeme.exists_last_of_comment? {front back : List Lexeme} {lexeme : Lexeme}
    (cut : Cut (front ++ lexeme :: back)) {line : Nat} {comment : Comment}
    (found : lexeme.comment? line = some comment) :
    ∃ init c, lexeme.text = init ++ [c] ∧ lineBreaks init = lexeme.lines := by
  cases lexeme with
  | lineComment body =>
    obtain ⟨c, inner, text, form⟩ := form_of_cut cut
    have unbroken := lineBreaks_text text form
    rcases List.eq_nil_or_concat (lineComment body).text with empty | ⟨init, last, parts⟩
    · cases empty
    · rw [List.concat_eq_append] at parts
      refine ⟨init, last, parts, ?_⟩
      rw [parts, lineBreaks, List.count_append] at unbroken
      exact (Nat.add_eq_zero_iff.mp unbroken).1
  | blockComment body =>
    refine ⟨'/' :: '*' :: body ++ ['*'], '/', by simp [Lexeme.text], ?_⟩
    simp [lineBreaks, lines, List.count_append]
  | _ => cases found

/-- The lines of a comment are those of its first and of its last character. -/
theorem Lexeme.HasComment.lines (cut : Cut lexemes) (covers : content.toList = flat lexemes)
    {place : Span} {comment : Comment} (has : HasComment 0 1 lexemes place comment)
    (closable : Bool) : comment.TellsLines content (tokensFrom 0 1 closable lexemes) place := by
  obtain ⟨front, lexeme, back, rfl, rfl, found⟩ := has
  obtain ⟨starts, ends⟩ := lines_of_comment? found
  obtain ⟨init, c, text, breaks⟩ := exists_last_of_comment? cut found
  have here := line_of_cut cut covers closable
  rw [Nat.zero_add, Comment.TellsLines, starts, ends]
  dsimp only
  refine ⟨here, byteLength (flat front ++ init), c, flat back, ?_, ?_, ?_⟩
  · refine dropBytes?_eq_some_iff.mpr ⟨flat front ++ init, ?_, rfl⟩
    rw [covers, flat_append, flat_cons, text]
    simp
  · rw [text, byteLength_append, byteLength_append]
    simp [byteLength, Nat.add_assoc]
  · have parts : content.toList = flat front ++ init ++ c :: flat back := by
      rw [covers, flat_append, flat_cons, text]
      simp
    have inFront := lineBreaks_flat cut 1 closable
    rw [LineIndex.ofText, parts, LineIndex.line_position, lineBreaks, List.count_append]
    rw [lineBreaks] at inFront breaks
    refine congrArg UInt32.ofNat ?_
    omega

end Lines

/-- **The line index finds tokens, and the first and last characters of comments, on the lines that
the scan has counted, further down by the line breaks in quoted literals in front.** -/
theorem TokenStream.lines_of_scan {content : String} {stream : TokenStream}
    (scanned : TokenStream.ofChars? content.toList = .ok stream) :
    (∀ token ∈ stream.tokens,
      ((LineIndex.ofText content).position token.span.start).line =
        UInt32.ofNat (token.line + quotedBreaks token.span.start stream.tokens)) ∧
    ∃ places, stream.Divides content places ∧
      List.Forall₂ (fun place comment => comment.TellsLines content stream.tokens place) places
        stream.comments := by
  obtain ⟨lexemes, covers, cut, rfl⟩ := TokenStream.ofChars?_eq_ok_iff.mp scanned
  refine ⟨fun token member => ?_, _, Lexeme.divides_of_cut cut covers, ?_⟩
  · obtain ⟨front, back, rfl, start, line, -⟩ := Lexeme.exists_makes_of_mem_tokensFrom member
    rw [Nat.zero_add] at start
    rw [start, line]
    exact Lexeme.line_of_cut cut covers false
  · exact (Lexeme.hasComment_commentsFrom 0 1 lexemes).imp fun _ _ has => has.lines cut covers false

/-- A string that goes on behind an escaped line break, in front of a comment. -/
def continuedText : String := "package p\n\nvar a = \"x\\\ny\" // c\n\n/* d\n*/ var b"

/-- The line break in the string is not counted, so tokens and comments behind it stand one line
further down than the scan has counted. -/
theorem TokenStream.lines_of_continuedText : ∃ stream,
    TokenStream.ofChars? continuedText.toList = .ok stream ∧
      (∀ token ∈ stream.tokens,
        ((LineIndex.ofText continuedText).position token.span.start).line =
          UInt32.ofNat (token.line + quotedBreaks token.span.start stream.tokens)) ∧
      (∃ places, stream.Divides continuedText places ∧
        List.Forall₂ (fun place comment => comment.TellsLines continuedText stream.tokens place)
          places stream.comments) ∧
      stream.tokens.map (fun token => quotedBreaks token.span.start stream.tokens) =
        [0, 0, 0, 0, 0, 0, 0, 1, 1, 1, 1, 1] ∧
      stream.comments.map (fun comment => (comment.startLine, comment.endLine)) =
        [(3, 3), (5, 6)] := by
  have evaluated : checkOk (TokenStream.ofChars? continuedText.toList) (fun stream =>
      stream.tokens.map (fun token => quotedBreaks token.span.start stream.tokens) ==
        [0, 0, 0, 0, 0, 0, 0, 1, 1, 1, 1, 1] &&
      stream.comments.map (fun comment => (comment.startLine, comment.endLine)) ==
        [(3, 3), (5, 6)]) = true := by
    decide +kernel
  obtain ⟨stream, scanned, seen⟩ := exists_of_checkOk evaluated
  obtain ⟨tokens, comments⟩ := Bool.and_eq_true_iff.mp seen
  obtain ⟨tokenLines, commentLines⟩ := TokenStream.lines_of_scan scanned
  exact ⟨stream, scanned, tokenLines, commentLines, eq_of_beq tokens, eq_of_beq comments⟩

end GoRefactor
