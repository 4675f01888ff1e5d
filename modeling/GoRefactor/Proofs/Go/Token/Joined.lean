import GoRefactor.Proofs.Go.Token.Layout

/-!
# Texts joined by line breaks

Texts that are cut by themselves are cut the same way when a line break joins them. The tokens and
comments of the whole are those of the texts, each from where its text starts. What stands in a text
has the doc comment that it has when another text is in front, unless a text ends with a comment of
its own: that is the doc of what follows.
-/

namespace GoRefactor

/-- The token further on in the text. -/
def Token.movedBy (bytes lines : Nat) (token : Token) : Token :=
  { token with
    span := ⟨token.span.start + bytes, token.span.stop + bytes⟩
    line := token.line + lines }

namespace Lexeme

/-- The lexemes of texts that are joined by line breaks. -/
def joined (front : List Lexeme) : List (List Lexeme) → List Lexeme
  | [] => front
  | next :: rest => front ++ .newline :: joined next rest

/-- Texts that are cut by themselves are cut the same way in the whole. -/
theorem cut_joined {front : List Lexeme} {parts : List (List Lexeme)} (cut : Cut front)
    (each : ∀ part ∈ parts, Cut part) : Cut (joined front parts) := by
  induction parts generalizing front with
  | nil => exact cut
  | cons next rest ih =>
    obtain ⟨first, others⟩ := List.forall_mem_cons.mp each
    exact cut_append_newline cut (ih first others)

/-- Behind a text that is cut by itself, and a line break, another text is cut by itself. -/
theorem exists_append_of_cut {front lexemes : List Lexeme} {text : List Char} (cut : Cut front)
    (whole : Cut lexemes) (covers : flat lexemes = flat front ++ '\n' :: text) :
    ∃ back, lexemes = front ++ .newline :: back ∧ flat back = text ∧ Cut back := by
  induction front generalizing lexemes with
  | nil => exact cut_eq_cons .newline whole covers rfl
  | cons lexeme rest ih =>
    have leads : lexeme.Leads (lexeme.text ++ (flat rest ++ '\n' :: text)) := by
      refine leads_agree cut.1 (Agree.extended _ _) fun _ _ => ?_
      cases flat rest with
      | nil => exact Or.inr rfl
      | cons c cs => exact Or.inl rfl
    rw [flat_cons, List.append_assoc] at covers
    obtain ⟨others, rfl, covers', cut'⟩ := cut_eq_cons lexeme whole covers leads
    obtain ⟨back, rfl, text_eq, cut_back⟩ := ih cut.2 cut' covers'
    exact ⟨back, rfl, text_eq, cut_back⟩

/-! ## Tokens -/

/-- Tokens of a text that starts further on are further on. -/
theorem tokensFrom_add (offset line : Nat) (closable : Bool) (lexemes : List Lexeme)
    (bytes lines : Nat) :
    tokensFrom (offset + bytes) (line + lines) closable lexemes =
      (tokensFrom offset line closable lexemes).map (Token.movedBy bytes lines) := by
  have insertion (closable : Bool) (offset line : Nat) :
      inserted closable (offset + bytes) (line + lines) =
        (inserted closable offset line).map (Token.movedBy bytes lines) := by
    cases closable <;> rfl
  induction lexemes generalizing offset line closable with
  | nil =>
    rw [tokensFrom, tokensFrom, List.map_append, insertion]
    rfl
  | cons lexeme rest ih =>
    have further (closable : Bool) :=
      ih (offset + byteLength lexeme.text) (line + lexeme.lines) closable
    rw [tokensFrom, tokensFrom, lexeme.token?_move offset line, Nat.add_right_comm offset,
      Nat.add_right_comm line]
    cases made : lexeme.token? offset line with
    | some token =>
      obtain ⟨span, onLine⟩ := token?_eq_some made
      simp only [Option.map_some, List.map_cons]
      refine congrArg₂ List.cons ?_ (further token.closes)
      rw [Token.movedBy, span, onLine, Nat.add_right_comm offset]
    | none =>
      simp only [Option.map_none]
      split
      · rw [List.map_append, insertion, further]
      · exact further closable

/-- Only the last token marks the end. -/
theorem kind_of_mem_dropLast {offset line : Nat} {closable : Bool} {lexemes : List Lexeme}
    {token : Token} (member : token ∈ (tokensFrom offset line closable lexemes).dropLast) :
    token.kind ≠ .finish := by
  have insertion {closable : Bool} {offset line : Nat}
      (member : token ∈ inserted closable offset line) : token.kind ≠ .finish := by
    cases closable with
    | false => cases member
    | true =>
      rw [List.mem_singleton.mp member]
      intro same
      cases same
  induction lexemes generalizing offset line closable with
  | nil =>
    rw [tokensFrom, List.dropLast_concat] at member
    exact insertion member
  | cons lexeme rest ih =>
    rw [tokensFrom] at member
    cases made : lexeme.token? offset line with
    | some first =>
      rw [made] at member
      simp only at member
      rw [List.dropLast_cons_of_ne_nil (tokensFrom_ne_nil _ _ _ _)] at member
      rcases List.mem_cons.mp member with rfl | later
      · cases lexeme with
        | word text =>
          cases made
          simp only
          split <;> decide
        | number | quoted | raw | semicolon | mark =>
          cases made
          intro same
          cases same
        | _ => cases made
      · exact ih later
    | none =>
      rw [made] at member
      simp only at member
      split at member
      · rw [List.dropLast_append_of_ne_nil (tokensFrom_ne_nil _ _ _ _)] at member
        rcases List.mem_append.mp member with here | later
        · exact insertion here
        · exact ih later
      · exact ih member

/-- The tokens of the first text come first. -/
theorem dropLast_tokensFrom_joined (offset line : Nat) (front : List Lexeme)
    (parts : List (List Lexeme)) : ∃ more,
    (tokensFrom offset line false (joined front parts)).dropLast =
      (tokensFrom offset line false front).dropLast ++ more := by
  cases parts with
  | nil => exact ⟨[], (List.append_nil _).symm⟩
  | cons next rest =>
    rw [joined, tokensFrom_append_newline,
      List.dropLast_append_of_ne_nil (tokensFrom_ne_nil _ _ _ _)]
    exact ⟨_, rfl⟩

/-! ## Comments and what they are the doc of -/

/-- Comments of a text on lines without code, the last one first. -/
def notesFrom (offset line : Nat) (lexemes : List Lexeme) : List Comment :=
  Cursor.loneComments ⟨tokensFrom offset line false lexemes, commentsFrom line lexemes⟩

/-- Such a comment stands on the lines of the text. -/
theorem lines_of_mem_notesFrom {offset line : Nat} {lexemes : List Lexeme} {note : Comment}
    (member : note ∈ notesFrom offset line lexemes) :
    line ≤ note.startLine ∧ note.startLine ≤ note.endLine ∧
      note.endLine ≤ line + lineCount lexemes :=
  lines_of_mem_commentsFrom (List.mem_filter.mp (List.mem_reverse.mp member)).1

/-- The lines with code. -/
def codeLines (tokens : List Token) : List Nat :=
  (tokens.filter fun token => token.kind != .terminator && token.kind != .finish).map (·.line)

/-- The end of a text is no code. -/
theorem codeLines_dropLast (offset line : Nat) (closable : Bool) (lexemes : List Lexeme) :
    codeLines (tokensFrom offset line closable lexemes).dropLast =
      codeLines (tokensFrom offset line closable lexemes) := by
  have last := getLast?_tokensFrom offset line closable lexemes
  have whole := List.dropLast_append_getLast? _ last
  conv_rhs => rw [← whole]
  rw [codeLines, codeLines, List.filter_append, List.map_append]
  exact (List.append_nil _).symm

/-- Behind a line break no comment shares a line with code of the other text. -/
theorem notesFrom_append_newline (offset line : Nat) (front back : List Lexeme) :
    notesFrom offset line (front ++ .newline :: back) =
      notesFrom (offset + byteLength (flat front) + 1) (line + lineCount front + 1) back ++
        notesFrom offset line front := by
  have lines {offset line : Nat} {lexemes : List Lexeme} {number : Nat}
      (code : number ∈ codeLines (tokensFrom offset line false lexemes)) :
      line ≤ number ∧ number ≤ line + lineCount lexemes := by
    obtain ⟨token, member, rfl⟩ := List.mem_map.mp code
    exact line_of_mem_tokensFrom (List.mem_filter.mp member).1
  have code : codeLines (tokensFrom offset line false (front ++ .newline :: back)) =
      codeLines (tokensFrom offset line false front) ++ codeLines (tokensFrom
        (offset + byteLength (flat front) + 1) (line + lineCount front + 1) false back) := by
    rw [tokensFrom_append_newline, ← codeLines_dropLast offset line false front]
    unfold codeLines
    rw [List.filter_append, List.map_append]
  change ((commentsFrom line (front ++ .newline :: back)).filter fun note =>
      !(codeLines (tokensFrom offset line false (front ++ .newline :: back))).contains
        note.startLine).reverse = _
  have comments : commentsFrom line (front ++ .newline :: back) =
      commentsFrom line front ++ commentsFrom (line + lineCount front + 1) back :=
    commentsFrom_append line front _
  rw [comments, code, List.filter_append, List.reverse_append]
  refine congrArg₂ (· ++ ·) (congrArg List.reverse (List.filter_congr fun note member => ?_))
    (congrArg List.reverse (List.filter_congr fun note member => ?_))
  · have bounds := lines_of_mem_commentsFrom member
    rw [List.contains_append, List.contains_eq_mem, decide_eq_false, Bool.false_or]
    · rfl
    · intro code
      have bounds' := lines code
      omega
  · have bounds := lines_of_mem_commentsFrom member
    rw [List.contains_append, Bool.or_comm, List.contains_eq_mem, decide_eq_false, Bool.false_or]
    · rfl
    · intro code
      have bounds' := lines code
      omega

/-- Comments of a text that starts further on are further down. -/
theorem notesFrom_add (offset line : Nat) (lexemes : List Lexeme) (bytes lines : Nat) :
    notesFrom (offset + bytes) (line + lines) lexemes =
      (notesFrom offset line lexemes).map (movedDown lines) := by
  have code : codeLines (tokensFrom (offset + bytes) (line + lines) false lexemes) =
      (codeLines (tokensFrom offset line false lexemes)).map (· + lines) := by
    unfold codeLines
    rw [tokensFrom_add, List.filter_map, List.map_map, List.map_map]
    rfl
  change ((commentsFrom (line + lines) lexemes).filter fun note =>
      !(codeLines (tokensFrom (offset + bytes) (line + lines) false lexemes)).contains
        note.startLine).reverse = _
  rw [commentsFrom_add, code, List.filter_map, ← List.map_reverse]
  refine congrArg (fun notes => List.map (movedDown lines) (List.reverse notes)) ?_
  refine List.filter_congr fun note _ => ?_
  simp only [Function.comp_apply, movedDown, List.contains_eq_mem, List.mem_map,
    Nat.add_right_cancel_iff, exists_eq_right, codeLines]

end Lexeme

/-- Comments that end before the line in front of what starts on `low` are not adjacent to it. -/
theorem adjacentNotes_append {own earlier : List Comment} (low : Nat) {expected : Nat}
    (inside : ∀ note ∈ own, low ≤ note.startLine)
    (far : ∀ note ∈ earlier, note.endLine + 1 < low) (here : low ≤ expected + 1) :
    adjacentNotes expected (own ++ earlier) = adjacentNotes expected own := by
  induction own generalizing expected with
  | nil =>
    cases earlier with
    | nil => rfl
    | cons note rest =>
      have apart := far note List.mem_cons_self
      rw [List.nil_append, adjacentNotes, adjacentNotes, if_neg]
      simp only [beq_iff_eq]
      omega
  | cons note rest ih =>
    obtain ⟨starts, others⟩ := List.forall_mem_cons.mp inside
    rw [List.cons_append, adjacentNotes, adjacentNotes, ih others (by omega)]

/-- Comments that are all further down are adjacent further down. -/
theorem adjacentNotes_map_movedDown {notes : List Comment} (lines expected : Nat)
    (positive : ∀ note ∈ notes, 0 < note.startLine) :
    adjacentNotes (expected + lines) (notes.map (Lexeme.movedDown lines)) =
      adjacentNotes expected notes := by
  induction notes generalizing expected with
  | nil => rfl
  | cons note rest ih =>
    obtain ⟨starts, others⟩ := List.forall_mem_cons.mp positive
    have before : note.startLine + lines - 1 = note.startLine - 1 + lines := by omega
    rw [List.map_cons, adjacentNotes, adjacentNotes]
    simp only [Lexeme.movedDown, beq_iff_eq, Nat.add_right_cancel_iff, before]
    rw [ih (note.startLine - 1) others]

/-- **What stands in a text has its doc comment from there**: the same one further down, whatever
comments are behind the text, and in front of it if none of them ends right above the text. -/
theorem docAbove_between {own earlier later front : List Comment} {low line lines : Nat}
    (positive : 0 < low) (inside : ∀ note ∈ own, low ≤ note.startLine)
    (far : ∀ note ∈ earlier, note.endLine + 1 < low)
    (far' : ∀ note ∈ front, note.endLine + 1 < low + lines)
    (behind : ∀ note ∈ later, line + lines ≤ note.endLine) (here : low ≤ line) :
    docAbove (later ++ own.map (Lexeme.movedDown lines) ++ front) (line + lines) =
      docAbove (own ++ earlier) line := by
  have none : later.filter (fun note => note.endLine < line + lines) = [] :=
    List.filter_eq_nil_iff.mpr fun note member => by
      have after := behind note member
      simp only [decide_eq_true_eq]
      omega
  have moved : (own.map (Lexeme.movedDown lines)).filter (fun note => note.endLine < line + lines) =
      (own.filter fun note => note.endLine < line).map (Lexeme.movedDown lines) := by
    rw [List.filter_map]
    refine congrArg _ (List.filter_congr fun note _ => ?_)
    simp [Lexeme.movedDown]
  have kept {note : Comment} (member : note ∈ own.filter fun note => note.endLine < line) :
      low ≤ note.startLine := inside note (List.mem_filter.mp member).1
  have adjacent : adjacentNotes (line + lines - 1)
      ((later ++ own.map (Lexeme.movedDown lines) ++ front).filter fun note =>
        note.endLine < line + lines) =
      adjacentNotes (line - 1) ((own ++ earlier).filter fun note => note.endLine < line) := by
    rw [List.filter_append, List.filter_append, List.filter_append, none, moved, List.nil_append,
      adjacentNotes_append (low + lines), adjacentNotes_append low,
      show line + lines - 1 = line - 1 + lines by omega, adjacentNotes_map_movedDown]
    · intro note member
      have starts := kept member
      omega
    · exact fun note member => kept member
    · exact fun note member => far note (List.mem_filter.mp member).1
    · omega
    · intro note member
      obtain ⟨former, held, rfl⟩ := List.mem_map.mp member
      exact Nat.add_le_add_right (kept held) lines
    · exact fun note member => far' note (List.mem_filter.mp member).1
    · omega
  unfold docAbove
  rw [adjacent]

end GoRefactor
