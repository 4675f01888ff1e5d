import GoRefactor.Go.Parser.File
import GoRefactor.Proofs.Go.Parser.Cursor
import GoRefactor.Proofs.Go.Token.Layout
import Mathlib.Data.List.Infix

/-!
# Tokens in order

Tokens cover the text that they stand for and stand behind each other, and names are not empty. As
tokens are taken, the end of the last one moves on, and never behind the start of one that is still
ahead.
-/

namespace GoRefactor

namespace Lexeme

/-- The text of a token is that of its lexeme. -/
theorem text_of_token? {lexeme : Lexeme} {offset line : Nat} {token : Token}
    (made : lexeme.token? offset line = some token) : token.text = String.ofList lexeme.text := by
  cases lexeme <;> first | (cases made; rfl) | cases made

/-- A token stands where its text does. -/
theorem tokensFrom_covers {offset line : Nat} {closable : Bool} {lexemes : List Lexeme}
    {token : Token} (member : token ∈ tokensFrom offset line closable lexemes) :
    ∃ front back, flat lexemes = front ++ token.text.toList ++ back ∧
      token.span = ⟨offset + byteLength front,
        offset + byteLength front + byteLength token.text.toList⟩ := by
  obtain ⟨front, back, rfl, start, -, makes⟩ := exists_makes_of_mem_tokensFrom member
  cases makes with
  | @written lexeme rest _ place line made =>
    have spelled : token.text.toList = lexeme.text := by
      rw [text_of_token? made, String.toList_ofList]
    have covers := (token?_eq_some made).1
    rw [covers] at start
    refine ⟨flat front, flat rest, ?_, ?_⟩
    · rw [spelled, flat_append, flat_cons, List.append_assoc]
    · rw [spelled, ← start, covers]
  | inserted => exact ⟨flat front, flat back, by simp, by rw [← start]; rfl⟩
  | finish => exact ⟨flat front, [], by simp, by rw [← start]; rfl⟩

/-- Tokens stand behind each other. -/
theorem tokensFrom_ordered (offset line : Nat) (closable : Bool) (lexemes : List Lexeme) :
    (∀ token ∈ tokensFrom offset line closable lexemes, offset ≤ token.span.start) ∧
      (tokensFrom offset line closable lexemes).Pairwise fun earlier later =>
        earlier.span.stop ≤ later.span.start := by
  -- A terminator that is inserted at the offset stands before all that starts there.
  have inserting {line : Nat} {closable : Bool} {offset : Nat} {others : List Token}
      (behind : ∀ token ∈ others, offset ≤ token.span.start)
      (ordered : others.Pairwise fun earlier later => earlier.span.stop ≤ later.span.start) :
      (∀ token ∈ inserted closable offset line ++ others, offset ≤ token.span.start) ∧
        (inserted closable offset line ++ others).Pairwise fun earlier later =>
          earlier.span.stop ≤ later.span.start := by
    cases closable with
    | false => exact ⟨behind, ordered⟩
    | true =>
      refine ⟨?_, List.pairwise_cons.mpr ⟨behind, ordered⟩⟩
      intro token member
      rcases List.mem_cons.mp member with rfl | later
      · exact Nat.le_refl offset
      · exact behind token later
  induction lexemes generalizing offset line closable with
  | nil =>
    refine inserting ?_ (List.pairwise_singleton _ _)
    intro token member
    rw [List.mem_singleton.mp member]
    exact Nat.le_refl offset
  | cons lexeme rest ih =>
    have further (closable : Bool) :=
      ih (offset + byteLength lexeme.text) (line + lexeme.lines) closable
    have earlier {closable : Bool} :
        ∀ token ∈ tokensFrom (offset + byteLength lexeme.text) (line + lexeme.lines) closable rest,
          offset ≤ token.span.start :=
      fun token member => Nat.le_trans (Nat.le_add_right _ _) ((further closable).1 token member)
    rw [tokensFrom]
    cases made : lexeme.token? offset line with
    | some first =>
      have stands := (token?_eq_some made).1
      refine ⟨?_, List.pairwise_cons.mpr ⟨?_, (further first.closes).2⟩⟩
      · intro token member
        rcases List.mem_cons.mp member with rfl | later
        · rw [stands]
        · exact earlier token later
      · intro token member
        rw [stands]
        exact (further first.closes).1 token member
    | none =>
      simp only
      split
      · exact inserting earlier (further false).2
      · exact ⟨earlier, (further closable).2⟩

/-- A name is a word, and no keyword. -/
theorem isWord_of_mem_tokensFrom {offset line : Nat} {closable : Bool} {lexemes : List Lexeme}
    (cut : Cut lexemes) {token : Token} (member : token ∈ tokensFrom offset line closable lexemes)
    (named : token.kind = .identifier) :
    IsWord token.text.toList ∧ isKeyword token.text = false := by
  obtain ⟨front, back, rfl, -, -, makes⟩ := exists_makes_of_mem_tokensFrom member
  cases makes with
  | @written lexeme rest _ place line made =>
    cases lexeme with
    | word text =>
      cases made
      simp only at named
      split at named
      · cases named
      · rename_i proper
        refine ⟨?_, by simpa using proper⟩
        rw [String.toList_ofList]
        exact (leads_word_iff.mp (leads_of_cut cut)).1
    | number | quoted | raw | semicolon | mark =>
      cases made
      cases named
    | blank | newline | lineComment | blockComment | foreign => cases made
  | inserted => cases named
  | finish => cases named

/-- A word is not empty. -/
theorem byteLength_pos_of_isWord {text : List Char} (isWord : IsWord text) :
    0 < byteLength text := by
  cases text with
  | nil => exact isWord.elim
  | cons c cs => exact byteLength_pos c cs

end Lexeme

/-! ## Spans in order -/

namespace Cursor

/-- The tokens ahead stand behind each other and behind the last one taken. -/
structure Ordered (cursor : Cursor) : Prop where
  /-- No token stops before it starts. -/
  order : ∀ token ∈ cursor.ahead, token.span.start ≤ token.span.stop
  /-- No name is empty. -/
  names : ∀ token ∈ cursor.ahead, token.kind = .identifier → token.span.start < token.span.stop
  /-- No token starts before the last one that was taken has ended. -/
  behind : ∀ token ∈ cursor.ahead, cursor.lastEnd ≤ token.span.start
  /-- No token starts before one that it follows has ended. -/
  sorted : cursor.ahead.Pairwise fun earlier later => earlier.span.stop ≤ later.span.start
  /-- The token behind the last one marks the end. -/
  finishes : cursor.finish.kind = .finish

/-- Tokens stay in order. -/
instance stable_ordered : Stable Ordered where
  advance cursor ordered := by
    cases next : cursor.ahead with
    | nil => rwa [advance_of_nil next]
    | cons token rest =>
      have inside {later : Token} (member : later ∈ rest) : later ∈ cursor.ahead := by
        rw [next]
        exact List.mem_cons_of_mem token member
      rw [advance_of_cons next]
      have sorted := ordered.sorted
      rw [next, List.pairwise_cons] at sorted
      refine ⟨fun later member => ordered.order later (inside member),
        fun later member => ordered.names later (inside member), fun later member => ?_, sorted.2,
        ordered.finishes⟩
      simp only
      split
      · exact ordered.behind later (inside member)
      · exact sorted.1 later member

namespace Ordered

variable {cursor : Cursor}

/-- A token that is taken stands behind the last one and ends before what follows. -/
theorem lastEnd_advance (ordered : cursor.Ordered) {token : Token} {rest : List Token}
    (next : cursor.ahead = token :: rest) (goesOn : token.isTerminator = false) :
    cursor.lastEnd ≤ token.span.start ∧ cursor.advance.lastEnd = token.span.stop := by
  refine ⟨ordered.behind token (by rw [next]; exact List.mem_cons_self), ?_⟩
  rw [advance_of_cons next]
  simp only [goesOn]
  rfl

/-- The end of the last token only moves on. -/
theorem lastEnd_le_advanceBy (ordered : cursor.Ordered) (count : Nat) :
    cursor.lastEnd ≤ (cursor.advanceBy count).lastEnd := by
  induction count generalizing cursor with
  | zero => exact Nat.le_refl _
  | succ count ih =>
    refine Nat.le_trans ?_ (ih (Stable.advance cursor ordered))
    cases next : cursor.ahead with
    | nil => rw [advance_of_nil next]
    | cons token rest =>
      have member : token ∈ cursor.ahead := by
        rw [next]
        exact List.mem_cons_self
      rw [advance_of_cons next]
      simp only
      split
      · exact Nat.le_refl _
      · exact Nat.le_trans (ordered.behind token member) (ordered.order token member)

/-- The end of the last token only moves on. -/
theorem lastEnd_le_run {α : Type} (ordered : cursor.Ordered)
    (parse : Parse α) : cursor.lastEnd ≤ (parse.run cursor).2.lastEnd := by
  obtain ⟨count, stops⟩ := parse.advances cursor
  rw [stops]
  exact ordered.lastEnd_le_advanceBy count

end Ordered

end Cursor

namespace TokenStream

variable {content : List Char} {stream : TokenStream}

/-- A text has tokens and comments if it can be cut, and they are laid out from its lexemes. -/
theorem ofChars?_eq_ok_iff : ofChars? content = .ok stream ↔ ∃ lexemes,
    content = Lexeme.flat lexemes ∧ Lexeme.Cut lexemes ∧
      stream = ⟨Lexeme.tokensFrom 0 1 false lexemes, Lexeme.commentsFrom 1 lexemes⟩ := by
  unfold ofChars?
  constructor
  · intro scanned
    cases cut : Lexeme.split 1 content with
    | error failure =>
      rw [cut] at scanned
      cases scanned
    | ok lexemes =>
      rw [cut] at scanned
      obtain ⟨covers, leads⟩ := Lexeme.split_eq_ok_iff.mp cut
      exact ⟨lexemes, covers, leads, (Except.ok.inj scanned).symm⟩
  · rintro ⟨lexemes, covers, leads, rfl⟩
    rw [Lexeme.split_eq_ok_iff.mpr ⟨covers, leads⟩]

/-- The tokens of a text are laid out from lexemes that cover it. -/
theorem lexemes_of_ofChars? (scanned : ofChars? content = .ok stream) :
    ∃ lexemes, content = Lexeme.flat lexemes ∧ Lexeme.Cut lexemes ∧
      stream.tokens = Lexeme.tokensFrom 0 1 false lexemes := by
  obtain ⟨lexemes, covers, leads, rfl⟩ := ofChars?_eq_ok_iff.mp scanned
  exact ⟨lexemes, covers, leads, rfl⟩

/-- Each token covers its text. -/
theorem slice?_of_mem {content : String} (scanned : ofChars? content.toList = .ok stream)
    {token : Token} (member : token ∈ stream.tokens) :
    token.span.slice? content = some token.text := by
  obtain ⟨lexemes, covers, -, tokens⟩ := lexemes_of_ofChars? scanned
  rw [tokens] at member
  obtain ⟨front, back, split, span⟩ := Lexeme.tokensFrom_covers member
  rw [Span.slice?_eq_some_iff, span]
  refine ⟨Nat.le_add_right _ _, String.ofList front, String.ofList back, ?_, ?_, ?_⟩
  · rw [← String.toList_inj, covers, split]
    simp
  · rw [utf8ByteSize_ofList, Nat.zero_add]
  · rw [byteLength_toList, Nat.add_sub_cancel_left]

/-- The last token that is laid out marks the end, and it is the one that a cursor finds there. -/
theorem tokens_eq_concat_of_lexemes {lexemes : List Lexeme}
    (tokens : stream.tokens = Lexeme.tokensFrom 0 1 false lexemes) :
    stream.tokens = (Cursor.start stream).ahead ++ [(Cursor.start stream).finish] ∧
      (Cursor.start stream).finish.kind = .finish := by
  have last := Lexeme.getLast?_tokensFrom 0 1 false lexemes
  rw [← tokens] at last
  have finish : stream.tokens.getLastD default = _ :=
    List.getLastD_eq_getLast?.trans (congrArg (Option.getD · default) last)
  refine ⟨?_, congrArg Token.kind finish⟩
  change stream.tokens = stream.tokens.dropLast ++ [stream.tokens.getLastD default]
  rw [finish]
  exact (List.dropLast_append_getLast? _ last).symm

/-- So does the last token of a text. -/
theorem tokens_eq_concat (scanned : ofChars? content = .ok stream) :
    stream.tokens = (Cursor.start stream).ahead ++ [(Cursor.start stream).finish] ∧
      (Cursor.start stream).finish.kind = .finish := by
  obtain ⟨lexemes, -, -, tokens⟩ := lexemes_of_ofChars? scanned
  exact tokens_eq_concat_of_lexemes tokens

/-- The tokens of a text are in order. -/
theorem ordered_start (scanned : ofChars? content = .ok stream) :
    (Cursor.start stream).Ordered := by
  obtain ⟨lexemes, -, cut, tokens⟩ := lexemes_of_ofChars? scanned
  have inside {token : Token} (member : token ∈ (Cursor.start stream).ahead) :
      token ∈ Lexeme.tokensFrom 0 1 false lexemes := by
    rw [← tokens]
    exact List.mem_of_mem_dropLast member
  have sorted := (Lexeme.tokensFrom_ordered 0 1 false lexemes).2
  rw [← tokens] at sorted
  refine ⟨fun token member => ?_, fun token member named => ?_, fun _ _ => Nat.zero_le _,
    sorted.sublist (List.dropLast_sublist _), (tokens_eq_concat scanned).2⟩
  · obtain ⟨front, back, -, span⟩ := Lexeme.tokensFrom_covers (inside member)
    rw [span]
    exact Nat.le_add_right _ _
  · obtain ⟨front, back, -, span⟩ := Lexeme.tokensFrom_covers (inside member)
    have text := (Lexeme.isWord_of_mem_tokensFrom cut (inside member) named).1
    rw [span]
    exact Nat.lt_add_of_pos_right (Lexeme.byteLength_pos_of_isWord text)

end TokenStream

end GoRefactor
