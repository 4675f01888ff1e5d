import GoRefactor.Proofs.Go.Parser.Order
import GoRefactor.Proofs.Go.Token.Exchange
import GoRefactor.Proofs.Go.Token.Joined
import GoRefactor.Proofs.Go.Token.Unfinished

/-!
# How a text is divided

A text that is scanned is divided among its tokens, its comments, white space and characters that
belong to no name. Tokens and comments stand in it in order and apart, names are as long as they
can be, and comments are whole. Every `//` or `/*` that is not in a literal is in a comment, so the
comments that a scan collects are those of the text.
-/

namespace GoRefactor

namespace Lexeme

/-! ## What a text leads with -/

/-- What a text `c :: cs` is like that leads with the lexeme. -/
def Form (c : Char) (cs : List Char) : Lexeme → Prop
  | .blank d => d = c ∧ isSpace c = true
  | .newline => c = '\n'
  | .lineComment body =>
    c = '/' ∧ ∃ behind, cs = '/' :: behind ∧ body = behind.takeWhile (· != '\n')
  | .blockComment body => c = '/' ∧ ∃ behind, cs = '*' :: behind ∧ commentBody? behind = some body
  | .foreign d => d = c ∧ 128 ≤ c.toNat ∧ isNameChar c = false
  | .word text => text = c :: cs.takeWhile isNameChar ∧ startsName c = true
  | .number text => text = c :: numberTail (isHexadecimal c cs) c cs ∧ startsNumber c cs = true
  | .quoted text => (c = '"' ∨ c = '\x27') ∧ ∃ body, text = c :: body ∧ quotedBody? c cs = some body
  | .raw text => c = '\x60' ∧ ∃ body, text = c :: body ∧ rawBody? cs = some body
  | .semicolon => c = ';'
  | .mark text => text = markText c cs ∧ c ≠ '\n' ∧
    (c = '/' → cs.head? ≠ some '/' ∧ cs.head? ≠ some '*')

/-- ASCII letters belong to names. -/
theorem isNameChar_of_isAlpha {c : Char} (letter : c.isAlpha = true) : isNameChar c = true := by
  have small : c.val < 128 := by
    unfold Char.isAlpha Char.isUpper Char.isLower at letter
    simp only [Bool.or_eq_true, Bool.and_eq_true, decide_eq_true_eq, ge_iff_le,
      UInt32.le_iff_toNat_le] at letter
    rw [UInt32.lt_iff_toNat_lt]
    rcases letter with ⟨_, below⟩ | ⟨_, below⟩
    · exact Nat.lt_of_le_of_lt below (by decide)
    · exact Nat.lt_of_le_of_lt below (by decide)
  rw [isNameChar, isLetter, if_pos small, letter, Bool.or_true, Bool.true_or]

/-- **A text has the form of the lexeme that it leads with.** -/
theorem form_of_next {c : Char} {cs : List Char} {lexeme : Lexeme}
    (leads : next c cs = .ok lexeme) : lexeme.Form c cs := by
  unfold next at leads
  split at leads
  · rename_i newline
    cases leads
    exact eq_of_beq newline
  rename_i notNewline
  split at leads
  · rename_i space
    cases leads
    exact ⟨rfl, space⟩
  split at leads
  · rename_i slashes
    cases leads
    obtain ⟨slash, second⟩ := Bool.and_eq_true_iff.mp slashes
    obtain ⟨behind, rfl⟩ := List.head?_eq_some_iff.mp (eq_of_beq second)
    exact ⟨eq_of_beq slash, behind, rfl, rfl⟩
  rename_i notSlashes
  split at leads
  · rename_i delimiter
    obtain ⟨slash, second⟩ := Bool.and_eq_true_iff.mp delimiter
    obtain ⟨behind, rfl⟩ := List.head?_eq_some_iff.mp (eq_of_beq second)
    split at leads
    · rename_i body found
      cases leads
      exact ⟨eq_of_beq slash, behind, rfl, found⟩
    · cases leads
  rename_i notDelimiter
  split at leads
  · rename_i first
    split at leads
    · rename_i name
      cases leads
      exact ⟨rfl, Bool.and_eq_true_iff.mpr ⟨first, name⟩⟩
    · rename_i foreign
      cases leads
      rw [Bool.or_eq_true_iff, Bool.or_eq_true_iff, decide_eq_true_eq] at first
      refine ⟨rfl, ?_, Bool.eq_false_iff.mpr foreign⟩
      rcases first with (underscore | letter) | above
      · rw [eq_of_beq underscore] at foreign
        exact absurd rfl foreign
      · exact absurd (isNameChar_of_isAlpha letter) foreign
      · exact above
  split at leads
  · rename_i starts
    cases leads
    exact ⟨rfl, starts⟩
  split at leads
  · rename_i quote
    split at leads
    · rename_i body found
      cases leads
      exact ⟨by simpa using quote, body, rfl, found⟩
    · cases leads
  split at leads
  · rename_i quote
    split at leads
    · rename_i body found
      cases leads
      exact ⟨eq_of_beq quote, body, rfl, found⟩
    · cases leads
  split at leads
  · rename_i semicolon
    cases leads
    exact eq_of_beq semicolon
  · cases leads
    refine ⟨rfl, fun same => notNewline (beq_iff_eq.mpr same), fun slash => ⟨fun other => ?_,
      fun other => ?_⟩⟩
    · exact notSlashes (by simp [slash, other])
    · exact notDelimiter (by simp [slash, other])

/-- Each of the lexemes of a text has a form that fits its place. -/
theorem form_of_cut {front back : List Lexeme} {lexeme : Lexeme}
    (cut : Cut (front ++ lexeme :: back)) :
    ∃ c inner, lexeme.text = c :: inner ∧ lexeme.Form c (inner ++ flat back) := by
  obtain ⟨c, inner, text, leads⟩ := leads_iff.mp (leads_of_cut cut)
  exact ⟨c, inner, text, form_of_next leads⟩

/-- The body of a delimited comment ends at the first closing delimiter. -/
theorem not_infix_of_commentBody? {cs body : List Char} (found : commentBody? cs = some body) :
    ¬['*', '/'] <:+: body := by
  fun_induction commentBody? cs generalizing body with
  | case1 => cases found
  | case2 rest =>
    cases found
    simp
  | case3 c cs notEnd ih =>
    obtain ⟨inner, same, rfl⟩ := Option.map_eq_some_iff.mp found
    rw [List.infix_cons_iff, not_or]
    refine ⟨?_, ih same⟩
    rintro ⟨rest, starts⟩
    obtain ⟨rfl, following⟩ := List.cons.inj starts
    obtain ⟨behind, rfl⟩ := commentBody?_eq_some same
    rw [← following] at notEnd
    exact notEnd _ rfl rfl

/-! ## Tokens -/

/-- A lexeme is that of a literal. -/
def isLiteral : Lexeme → Bool
  | .number _ => true
  | .quoted _ => true
  | .raw _ => true
  | _ => false

/-- Literals, and they only, make tokens of their kind. -/
theorem kind_of_token? {lexeme : Lexeme} {offset line : Nat} {token : Token}
    (made : lexeme.token? offset line = some token) :
    token.kind = .literal ↔ lexeme.isLiteral = true := by
  cases lexeme with
  | word text =>
    cases made
    simp only [isLiteral]
    split <;> simp
  | number | quoted | raw | semicolon | mark =>
    cases made
    simp [isLiteral]
  | blank | newline | lineComment | blockComment | foreign => cases made

/-! ## Comments -/

/-- The comment that a lexeme is, if it is one, on the line where it starts. -/
def comment? (line : Nat) : Lexeme → Option Comment
  | .lineComment body => some ⟨String.ofList (Blank.trim body), line, line⟩
  | .blockComment body =>
    some ⟨String.ofList (Blank.trim body), line, line + lineBreaks body⟩
  | _ => none

/-- Where comments stand among lexemes that begin at an offset. -/
def commentPlaces (offset : Nat) : List Lexeme → List Span
  | [] => []
  | lexeme :: rest =>
    let later := commentPlaces (offset + byteLength lexeme.text) rest
    if (lexeme.comment? 0).isSome then ⟨offset, offset + byteLength lexeme.text⟩ :: later
    else later

/-- The lexemes have a comment that starts on the line and stands at the place. -/
def HasComment (offset line : Nat) (lexemes : List Lexeme) (place : Span) (comment : Comment) :
    Prop :=
  ∃ front lexeme back, lexemes = front ++ lexeme :: back ∧
    place = ⟨offset + byteLength (flat front),
      offset + byteLength (flat front) + byteLength lexeme.text⟩ ∧
    lexeme.comment? (line + lineCount front) = some comment

/-- What stands behind a lexeme stands behind it together with the lexeme. -/
theorem HasComment.cons {offset line : Nat} {lexeme : Lexeme} {rest : List Lexeme} {place : Span}
    {comment : Comment}
    (has : HasComment (offset + byteLength lexeme.text) (line + lexeme.lines) rest place comment) :
    HasComment offset line (lexeme :: rest) place comment := by
  obtain ⟨front, found, back, rfl, covers, words⟩ := has
  refine ⟨lexeme :: front, found, back, rfl, ?_, ?_⟩
  · rw [covers, flat_cons, byteLength_append, Nat.add_assoc offset]
  · rw [lineCount_cons, ← Nat.add_assoc, words]

/-- **Comments stand at their places, one behind the other.** -/
theorem hasComment_commentsFrom (offset line : Nat) (lexemes : List Lexeme) :
    List.Forall₂ (HasComment offset line lexemes) (commentPlaces offset lexemes)
      (commentsFrom line lexemes) := by
  induction lexemes generalizing offset line with
  | nil => exact .nil
  | cons lexeme rest ih =>
    have later := (ih (offset + byteLength lexeme.text) (line + lexeme.lines)).imp
      fun _ _ => HasComment.cons
    cases lexeme with
    | lineComment body => exact .cons ⟨[], _, rest, rfl, rfl, rfl⟩ later
    | blockComment body => exact .cons ⟨[], _, rest, rfl, rfl, rfl⟩ later
    | _ => exact later

/-- A comment starts at or behind the offset. -/
theorem le_of_mem_commentPlaces {offset : Nat} {lexemes : List Lexeme} {place : Span}
    (member : place ∈ commentPlaces offset lexemes) : offset ≤ place.start := by
  induction lexemes generalizing offset with
  | nil => cases member
  | cons lexeme rest ih =>
    have later (held : place ∈ commentPlaces (offset + byteLength lexeme.text) rest) :
        offset ≤ place.start := Nat.le_trans (Nat.le_add_right _ _) (ih held)
    rw [commentPlaces] at member
    split at member
    · rcases List.mem_cons.mp member with rfl | held
      · exact Nat.le_refl _
      · exact later held
    · exact later member

/-- Comments stand behind each other. -/
theorem pairwise_commentPlaces (offset : Nat) (lexemes : List Lexeme) :
    (commentPlaces offset lexemes).Pairwise fun earlier later => earlier.stop ≤ later.start := by
  induction lexemes generalizing offset with
  | nil => exact .nil
  | cons lexeme rest ih =>
    rw [commentPlaces]
    split
    · exact .cons (fun _ member => le_of_mem_commentPlaces member) (ih _)
    · exact ih _

/-- A comment among lexemes has its place. -/
theorem mem_commentPlaces {front back : List Lexeme} {lexeme : Lexeme}
    (comment : (lexeme.comment? 0).isSome = true) (offset : Nat) :
    ⟨offset + byteLength (flat front),
      offset + byteLength (flat front) + byteLength lexeme.text⟩ ∈
        commentPlaces offset (front ++ lexeme :: back) := by
  induction front generalizing offset with
  | nil =>
    rw [List.nil_append, commentPlaces, if_pos comment]
    exact List.mem_cons_self
  | cons first rest ih =>
    have later := ih (offset + byteLength first.text)
    rw [List.cons_append, commentPlaces, flat_cons, byteLength_append, ← Nat.add_assoc]
    split
    · exact List.mem_cons_of_mem _ later
    · exact later

/-- A comment makes no token. -/
theorem token?_of_comment? {lexeme : Lexeme} (comment : (lexeme.comment? 0).isSome = true)
    (offset line : Nat) : lexeme.token? offset line = none := by
  cases lexeme with
  | lineComment | blockComment => rfl
  | _ => cases comment

/-- Whether a lexeme is a comment does not depend on its line. -/
theorem isSome_comment? (lexeme : Lexeme) (line line' : Nat) :
    (lexeme.comment? line).isSome = (lexeme.comment? line').isSome := by
  cases lexeme <;> rfl

/-! ## Apart -/

/-- A place between lexemes is not within one of them. -/
theorem apart_of_append {front back front' back' : List Lexeme} {lexeme : Lexeme}
    (same : front ++ lexeme :: back = front' ++ back') :
    byteLength (flat front') ≤ byteLength (flat front) ∨
      byteLength (flat front) + byteLength lexeme.text ≤ byteLength (flat front') := by
  rcases List.append_eq_append_iff.mp same with ⟨more, rfl, rest⟩ | ⟨more, rfl, -⟩
  · rcases List.cons_eq_append_iff.mp rest with ⟨rfl, -⟩ | ⟨others, rfl, -⟩
    · left
      rw [List.append_nil]
    · right
      rw [flat_append, flat_cons, byteLength_append, byteLength_append]
      omega
  · left
    rw [flat_append, byteLength_append]
    exact Nat.le_add_right _ _

/-- Of two lexemes one stands behind the other, or they are the same. -/
theorem apart_or_eq {front back front' back' : List Lexeme} {lexeme lexeme' : Lexeme}
    (same : front ++ lexeme :: back = front' ++ lexeme' :: back') :
    byteLength (flat front') + byteLength lexeme'.text ≤ byteLength (flat front) ∨
      byteLength (flat front) + byteLength lexeme.text ≤ byteLength (flat front') ∨
      lexeme = lexeme' := by
  rcases List.append_eq_append_iff.mp same with ⟨more, rfl, rest⟩ | ⟨more, rfl, rest⟩
  · rcases List.cons_eq_append_iff.mp rest with ⟨rfl, heads⟩ | ⟨others, rfl, -⟩
    · exact Or.inr (Or.inr (List.cons.inj heads).1.symm)
    · right; left
      rw [flat_append, flat_cons, byteLength_append, byteLength_append]
      omega
  · rcases List.cons_eq_append_iff.mp rest with ⟨rfl, heads⟩ | ⟨others, rfl, -⟩
    · exact Or.inr (Or.inr (List.cons.inj heads).1)
    · left
      rw [flat_append, flat_cons, byteLength_append, byteLength_append]
      omega

/-- Tokens and comments are apart. -/
theorem apart_of_mem {lexemes : List Lexeme} {offset line : Nat} {closable : Bool} {token : Token}
    (member : token ∈ tokensFrom offset line closable lexemes) {place : Span} {comment : Comment}
    (has : HasComment offset line lexemes place comment) :
    token.span.stop ≤ place.start ∨ place.stop ≤ token.span.start := by
  obtain ⟨front, found, back, rfl, rfl, words⟩ := has
  obtain ⟨front', back', same, start, -, makes⟩ := exists_makes_of_mem_tokensFrom member
  have point (covers : token.span.stop = token.span.start) :
      token.span.stop ≤ offset + byteLength (flat front) ∨
        offset + byteLength (flat front) + byteLength found.text ≤ token.span.start := by
    have outside := apart_of_append same
    omega
  cases makes with
  | inserted => exact point rfl
  | finish => exact point rfl
  | @written lexeme rest _ place onLine made =>
    have covers := (token?_eq_some made).1
    rw [covers] at start ⊢
    dsimp only at start ⊢
    rcases apart_or_eq same with before | behind | rfl
    · omega
    · omega
    · have comment : (found.comment? 0).isSome = true := by
        rw [found.isSome_comment? 0 (line + lineCount front), words]
        rfl
      rw [token?_of_comment? comment] at made
      cases made

/-! ## Characters -/

/-- Each character of a text stands in one of its lexemes. -/
theorem exists_lexeme_of_char {lexemes : List Lexeme} {before after : List Char} {c : Char}
    (covers : flat lexemes = before ++ c :: after) :
    ∃ front lexeme back inner inner', lexemes = front ++ lexeme :: back ∧
      lexeme.text = inner ++ c :: inner' ∧ before = flat front ++ inner ∧
      after = inner' ++ flat back := by
  induction lexemes generalizing before with
  | nil => simp at covers
  | cons lexeme rest ih =>
    rw [flat_cons] at covers
    rcases List.append_eq_append_iff.mp covers with ⟨more, rfl, others⟩ | ⟨more, text, others⟩
    · obtain ⟨front, found, back, inner, inner', rfl, text, rfl, rfl⟩ := ih others
      exact ⟨lexeme :: front, found, back, inner, inner', rfl, text, by simp, rfl⟩
    · cases more with
      | nil =>
        rw [List.append_nil] at text
        have later : flat rest = [] ++ c :: after := others.symm
        obtain ⟨front, found, back, inner, inner', rfl, found_text, none, rfl⟩ := ih later
        refine ⟨lexeme :: front, found, back, inner, inner', rfl, found_text, ?_, rfl⟩
        rw [flat_cons, List.append_assoc, ← none, List.append_nil, text]
      | cons d inner' =>
        obtain ⟨rfl, rfl⟩ := List.cons.inj others
        exact ⟨[], lexeme, rest, before, inner', rfl, text, rfl, rfl⟩

/-- A slash stands at most in front of an operator. -/
theorem slash_not_mem_tail_markText (c : Char) (cs : List Char) : '/' ∉ (markText c cs).tail := by
  have checked : ∀ known ∈ longMarks ++ pairMarks, '/' ∉ known.tail := by decide
  unfold markText
  split
  · rename_i known found
    exact checked known (List.mem_of_find?_eq_some found)
  · exact List.not_mem_nil

/-- Only comments and literals have a place where a comment could open. -/
theorem comment_or_literal_of_opening {front back : List Lexeme} {lexeme : Lexeme}
    (cut : Cut (front ++ lexeme :: back)) {inner inner' : List Char}
    (slash : lexeme.text = inner ++ '/' :: inner') {d : Char}
    (second : (inner' ++ flat back).head? = some d) (opens : d = '/' ∨ d = '*') :
    (lexeme.comment? 0).isSome = true ∨ lexeme.isLiteral = true := by
  obtain ⟨c, rest, text, form⟩ := form_of_cut cut
  have member : '/' ∈ lexeme.text := by simp [slash]
  cases lexeme with
  | lineComment | blockComment => exact Or.inl rfl
  | number | quoted | raw => exact Or.inr rfl
  | blank b =>
    obtain ⟨rfl, space⟩ := form
    rw [← List.mem_singleton.mp member] at space
    exact absurd space (by decide)
  | newline => exact absurd member (by decide)
  | foreign b =>
    obtain ⟨rfl, above, -⟩ := form
    rw [← List.mem_singleton.mp member] at above
    exact absurd above (by decide)
  | semicolon => exact absurd member (by decide)
  | word word =>
    obtain ⟨rfl, starts⟩ := form
    have named : isNameChar '/' = true := by
      rcases List.mem_cons.mp member with first | later
      · rw [first]
        exact isNameChar_of_startsName c starts
      · exact List.all_eq_true.mp (List.all_takeWhile) '/' later
    exact absurd named (by decide)
  | mark mark =>
    obtain ⟨mark_eq, -, single⟩ := form
    change mark = c :: rest at text
    change mark = inner ++ '/' :: inner' at slash
    rw [text] at slash
    rcases List.cons_eq_append_iff.mp slash with ⟨rfl, same⟩ | ⟨more, rfl, later⟩
    · obtain ⟨rfl, rfl⟩ := List.cons.inj same
      obtain ⟨notSlash, notStar⟩ := single rfl
      rcases opens with rfl | rfl
      · exact absurd second notSlash
      · exact absurd second notStar
    · have tail : '/' ∈ (markText c (rest ++ flat back)).tail := by
        rw [← mark_eq, text, List.tail_cons, later]
        simp
      exact absurd tail (slash_not_mem_tail_markText _ _)

/-! ## The parts of a division -/

/-- Of the tokens in front of the end only terminators cover nothing, and they stand in front of
what breaks the line. -/
theorem terminator_of_isEmpty {lexemes : List Lexeme} (cut : Cut lexemes) {offset line : Nat}
    {closable : Bool} {token : Token} (member : token ∈ tokensFrom offset line closable lexemes)
    (empty : token.span.isEmpty = true) (inFront : token.kind ≠ .finish) :
    token.kind = .terminator ∧ ∃ front back, lexemes = front ++ back ∧
      token.span.start = offset + byteLength (flat front) ∧
      (flat back = [] ∨ ['\n'] <+: flat back ∨ ['/', '*'] <+: flat back) := by
  obtain ⟨front, back, covers, start, -, makes⟩ := exists_makes_of_mem_tokensFrom member
  cases makes with
  | @written lexeme rest _ place onLine made =>
    have inside : lexeme ∈ lexemes := covers ▸ List.mem_append_right _ List.mem_cons_self
    obtain ⟨c, inner, text⟩ := List.exists_cons_of_ne_nil (solid_of_cut cut lexeme inside)
    have some_bytes : 0 < byteLength lexeme.text := text ▸ byteLength_pos c inner
    have same : token.span.start = token.span.stop := eq_of_beq empty
    rw [(token?_eq_some made).1] at same
    dsimp only at same
    omega
  | inserted offset' line' breaks =>
    refine ⟨rfl, front, back, covers, start, ?_⟩
    cases back with
    | nil => exact Or.inl rfl
    | cons lexeme rest =>
      have breaking := breaks lexeme rfl
      cases lexeme with
      | newline => exact Or.inr (Or.inl ⟨flat rest, rfl⟩)
      | blockComment body => exact Or.inr (Or.inr ⟨body ++ ['*', '/'] ++ flat rest, rfl⟩)
      | _ => cases breaking
  | finish => exact absurd rfl inFront

/-- A word is made of the characters of names. -/
theorem isNameChar_of_isWord {text : List Char} (isWord : IsWord text) :
    ∀ c ∈ text, isNameChar c = true := by
  cases text with
  | nil => exact fun _ none => nomatch none
  | cons first rest =>
    intro c member
    rcases List.mem_cons.mp member with rfl | later
    · exact isNameChar_of_startsName c isWord.1
    · exact isWord.2 c later

/-- Names and keywords are words that no letter, numeral or underscore follows. -/
theorem isWord_of_kind {lexemes : List Lexeme} (cut : Cut lexemes) {offset line : Nat}
    {closable : Bool} {token : Token} (member : token ∈ tokensFrom offset line closable lexemes)
    (named : token.kind = .identifier ∨ token.kind = .keyword) :
    IsWord token.text.toList ∧ ∃ front rest, flat lexemes = front ++ token.text.toList ++ rest ∧
      token.span.stop = offset + byteLength (front ++ token.text.toList) ∧
      rest.head?.any isNameChar = false := by
  obtain ⟨front, back, covers, start, -, makes⟩ := exists_makes_of_mem_tokensFrom member
  cases makes with
  | @written lexeme rest _ place onLine made =>
    have stands := (token?_eq_some made).1
    have spelled := text_of_token? made
    rw [stands] at start
    subst covers
    cases lexeme with
    | word text =>
      obtain ⟨isWord, stops⟩ := leads_word_iff.mp (leads_of_cut cut)
      rw [spelled, String.toList_ofList]
      refine ⟨isWord, flat front, flat rest, ?_, ?_, stops⟩
      · rw [flat_append, flat_cons, List.append_assoc]
      · rw [stands, byteLength_append, ← Nat.add_assoc, ← start]
    | number | quoted | raw | semicolon | mark =>
      rw [token?] at made
      rw [← Option.some.inj made] at named
      rcases named with other | other <;> cases other
    | blank | newline | lineComment | blockComment | foreign => cases made
  | inserted => rcases named with other | other <;> cases other
  | finish => rcases named with other | other <;> cases other

/-- A character of a lexeme stands between the offsets where the lexeme starts and stops. -/
theorem covers_of_text (front : List Lexeme) {lexeme : Lexeme} {inner inner' : List Char} {c : Char}
    (text : lexeme.text = inner ++ c :: inner') :
    byteLength (flat front) ≤ byteLength (flat front ++ inner) ∧
      byteLength (flat front ++ inner) < byteLength (flat front) + byteLength lexeme.text := by
  have some_bytes : 0 < byteLength (c :: inner') := byteLength_pos c inner'
  rw [text, byteLength_append, byteLength_append]
  omega

end Lexeme

/-! ## The division of a text -/

/-- The span covers the byte at the offset. -/
def Span.Covers (span : Span) (offset : Nat) : Prop := span.start ≤ offset ∧ offset < span.stop

/-- A whole comment with its body, in front of the rest of a text. -/
inductive WholeComment (body : List Char) : List Char → List Char → Prop
  /-- Up to the end of the line. -/
  | line {rest : List Char} (unbroken : '\n' ∉ body) (stops : ∀ c ∈ rest.head?, c = '\n') :
    WholeComment body ('/' :: '/' :: body) rest
  /-- Up to the first closing delimiter. -/
  | delimited {rest : List Char} (unclosed : ¬['*', '/'] <:+: body) :
    WholeComment body ('/' :: '*' :: body ++ ['*', '/']) rest

/-- The comment stands whole at a place of the text, and has the words of its body. -/
def Comment.StandsAt (comment : Comment) (content : String) (place : Span) : Prop :=
  ∃ front text rest body, content.toList = front ++ text ++ rest ∧
    place = ⟨byteLength front, byteLength front + byteLength text⟩ ∧
    WholeComment body text rest ∧ comment.text = String.ofList (Blank.trim body)

/-- White space between tokens. -/
def whiteSpace : List Char := [' ', '\t', '\n', '\x0c', '\r']

/-- How a text is divided among tokens and comments, where `places` are those of the comments. -/
structure TokenStream.Divides (stream : TokenStream) (content : String) (places : List Span) :
    Prop where
  /-- Tokens stand behind each other. -/
  tokensOrdered : stream.tokens.Pairwise fun earlier later => earlier.span.stop ≤ later.span.start
  /-- Tokens lie in the text, start and stop between characters, and have the text they cover. -/
  aligned : ∀ token ∈ stream.tokens, token.span.slice? content = some token.text
  /-- One token, the last, marks the end, and it is there. -/
  finish : ∃ front finish, stream.tokens = front ++ [finish] ∧ finish.kind = .finish ∧
    finish.span = Span.point content.utf8ByteSize ∧ ∀ token ∈ front, token.kind ≠ .finish
  /-- Of the other tokens only terminators cover nothing. They are those that are inserted: in front
  of a line break, of a delimited comment, or at the end. -/
  empty : ∀ token ∈ stream.tokens, token.span.isEmpty = true → token.kind ≠ .finish →
    token.kind = .terminator ∧ ∃ rest, dropBytes? token.span.start content.toList = some rest ∧
      (rest = [] ∨ ['\n'] <+: rest ∨ ['/', '*'] <+: rest)
  /-- Names and keywords are made of letters, numerals and underscores, and no more follow. -/
  words : ∀ token ∈ stream.tokens, token.kind = .identifier ∨ token.kind = .keyword →
    token.text ≠ "" ∧ (∀ c ∈ token.text.toList, c = '_' ∨ isLetter c = true ∨ isNumeral c = true) ∧
    ∀ c rest, dropBytes? token.span.stop content.toList = some (c :: rest) →
      c ≠ '_' ∧ isLetter c = false ∧ isNumeral c = false
  /-- Comments stand at their places. -/
  comments : List.Forall₂ (fun place comment => comment.StandsAt content place) places
    stream.comments
  /-- Comments stand behind each other. -/
  commentsOrdered : places.Pairwise fun earlier later => earlier.stop ≤ later.start
  /-- Comments are outside of tokens. -/
  apart : ∀ place ∈ places, ∀ token ∈ stream.tokens,
    token.span.stop ≤ place.start ∨ place.stop ≤ token.span.start
  /-- Where a comment could open there is a literal or a comment. -/
  commentsComplete : ∀ offset second rest,
    dropBytes? offset content.toList = some ('/' :: second :: rest) → second = '/' ∨ second = '*' →
    (∃ token ∈ stream.tokens, token.kind = .literal ∧ token.span.Covers offset) ∨
      ∃ place ∈ places, place.Covers offset
  /-- What is in no token and no comment is white space, or a character outside ASCII that is
  neither a letter nor a numeral. -/
  filled : ∀ offset c rest, dropBytes? offset content.toList = some (c :: rest) →
    (∃ token ∈ stream.tokens, token.span.Covers offset) ∨ (∃ place ∈ places, place.Covers offset) ∨
      c ∈ whiteSpace ∨ 128 ≤ c.toNat ∧ isLetter c = false ∧ isNumeral c = false

/-- A blank is one of the characters of white space that may stand between tokens. -/
theorem mem_whiteSpace_of_isSpace {c : Char} (space : Lexeme.isSpace c = true) :
    c ∈ whiteSpace := by
  simp only [Lexeme.isSpace, Bool.or_eq_true, beq_iff_eq] at space
  rcases space with ((rfl | rfl) | rfl) | rfl <;> decide

section Division

variable {lexemes : List Lexeme} {content : String}

/-- A comment stands whole at its place. -/
theorem Lexeme.HasComment.standsAt (cut : Lexeme.Cut lexemes)
    (covers : content.toList = Lexeme.flat lexemes) {line : Nat} {place : Span} {comment : Comment}
    (has : Lexeme.HasComment 0 line lexemes place comment) : comment.StandsAt content place := by
  obtain ⟨front, lexeme, back, rfl, rfl, found⟩ := has
  obtain ⟨c, inner, text, form⟩ := Lexeme.form_of_cut cut
  have whole (body : List Char) (words : comment.text = String.ofList (Blank.trim body))
      (stands : WholeComment body lexeme.text (Lexeme.flat back)) : comment.StandsAt content
        ⟨0 + byteLength (Lexeme.flat front),
          0 + byteLength (Lexeme.flat front) + byteLength lexeme.text⟩ := by
    refine ⟨Lexeme.flat front, lexeme.text, Lexeme.flat back, body, ?_, ?_, stands, words⟩
    · rw [covers, Lexeme.flat_append, Lexeme.flat_cons, List.append_assoc]
    · rw [Nat.zero_add]
  cases lexeme with
  | lineComment body =>
    cases found
    refine whole body rfl ?_
    obtain ⟨rfl, behind, following, taken⟩ := form
    obtain ⟨-, rfl⟩ := List.cons.inj text
    obtain ⟨-, rfl⟩ := List.cons.inj following
    obtain ⟨unbroken, stops⟩ := Lexeme.takeWhile_eq_left_iff.mp taken.symm
    refine .line (fun broken => ?_) (fun c heads => ?_)
    · exact absurd (unbroken '\n' broken) (by decide)
    · rw [Option.mem_def.mp heads] at stops
      simpa using stops
  | blockComment body =>
    cases found
    refine whole body rfl (.delimited ?_)
    obtain ⟨-, behind, -, ends⟩ := form
    exact Lexeme.not_infix_of_commentBody? ends
  | _ => cases found

/-- Each character that is no white space and belongs to a name, or is in ASCII, is in a token or
in a comment. -/
theorem Lexeme.filled_of_cut (cut : Lexeme.Cut lexemes) {offset line : Nat} {c : Char}
    {rest : List Char} (behind : dropBytes? offset (Lexeme.flat lexemes) = some (c :: rest))
    (closable : Bool) :
    (∃ token ∈ Lexeme.tokensFrom 0 line closable lexemes, token.span.Covers offset) ∨
      (∃ place ∈ Lexeme.commentPlaces 0 lexemes, place.Covers offset) ∨
      c ∈ whiteSpace ∨ 128 ≤ c.toNat ∧ isLetter c = false ∧ isNumeral c = false := by
  obtain ⟨before, covers, rfl⟩ := dropBytes?_eq_some_iff.mp behind
  obtain ⟨front, lexeme, back, inner, inner', rfl, text, rfl, -⟩ :=
    Lexeme.exists_lexeme_of_char covers
  have stretch := Lexeme.covers_of_text front text
  obtain ⟨first, further, leads, form⟩ := Lexeme.form_of_cut cut
  cases comment : (lexeme.comment? 0).isSome with
  | true =>
    refine Or.inr (Or.inl ⟨_, Lexeme.mem_commentPlaces comment 0, ?_⟩)
    rw [Nat.zero_add]
    exact stretch
  | false =>
    cases made : lexeme.token? (0 + byteLength (Lexeme.flat front))
        (line + Lexeme.lineCount front) with
    | some token =>
      refine Or.inl ⟨token, Lexeme.mem_tokensFrom_of_token? made closable, ?_⟩
      rw [(token?_eq_some made).1, Nat.zero_add]
      exact stretch
    | none =>
      refine Or.inr (Or.inr ?_)
      have member : c ∈ lexeme.text := by simp [text]
      cases lexeme with
      | blank d =>
        rw [List.mem_singleton.mp member]
        obtain ⟨rfl, space⟩ := form
        exact Or.inl (mem_whiteSpace_of_isSpace space)
      | newline =>
        rw [List.mem_singleton.mp member]
        exact Or.inl (by decide)
      | foreign d =>
        rw [List.mem_singleton.mp member]
        obtain ⟨rfl, above, unnamed⟩ := form
        simp only [isNameChar, Bool.or_eq_false_iff] at unnamed
        exact Or.inr ⟨above, unnamed.1.2, unnamed.2⟩
      | lineComment | blockComment => cases comment
      | word | number | quoted | raw | semicolon | mark => cases made

/-- Where a comment could open there is a literal or a comment. -/
theorem Lexeme.opening_of_cut (cut : Lexeme.Cut lexemes) {offset line : Nat} {second : Char}
    {rest : List Char}
    (behind : dropBytes? offset (Lexeme.flat lexemes) = some ('/' :: second :: rest))
    (opens : second = '/' ∨ second = '*') (closable : Bool) :
    (∃ token ∈ Lexeme.tokensFrom 0 line closable lexemes,
        token.kind = .literal ∧ token.span.Covers offset) ∨
      ∃ place ∈ Lexeme.commentPlaces 0 lexemes, place.Covers offset := by
  obtain ⟨before, covers, rfl⟩ := dropBytes?_eq_some_iff.mp behind
  obtain ⟨front, lexeme, back, inner, inner', rfl, text, rfl, following⟩ :=
    Lexeme.exists_lexeme_of_char covers
  have stretch := Lexeme.covers_of_text front text
  have next : (inner' ++ Lexeme.flat back).head? = some second := by rw [← following]; rfl
  rcases Lexeme.comment_or_literal_of_opening cut text next opens with comment | literal
  · refine Or.inr ⟨_, Lexeme.mem_commentPlaces comment 0, ?_⟩
    rw [Nat.zero_add]
    exact stretch
  · cases made : lexeme.token? (0 + byteLength (Lexeme.flat front))
        (line + Lexeme.lineCount front) with
    | some token =>
      refine Or.inl ⟨token, Lexeme.mem_tokensFrom_of_token? made closable,
        (Lexeme.kind_of_token? made).mpr literal, ?_⟩
      rw [(token?_eq_some made).1, Nat.zero_add]
      exact stretch
    | none =>
      cases lexeme with
      | number | quoted | raw => cases made
      | _ => cases literal

/-- Lexemes divide the text that they are cut from. -/
theorem Lexeme.divides_of_cut (cut : Lexeme.Cut lexemes)
    (covers : content.toList = Lexeme.flat lexemes) :
    TokenStream.Divides ⟨Lexeme.tokensFrom 0 1 false lexemes, Lexeme.commentsFrom 1 lexemes⟩ content
      (Lexeme.commentPlaces 0 lexemes) := by
  have matched := Lexeme.hasComment_commentsFrom 0 1 lexemes
  constructor
  case tokensOrdered => exact (Lexeme.tokensFrom_ordered 0 1 false lexemes).2
  case aligned =>
    intro token member
    obtain ⟨front, back, parts, span⟩ := Lexeme.tokensFrom_covers member
    rw [span, Nat.zero_add, Span.slice?_eq_map_sliceChars?, covers,
      Span.sliceChars?_eq_some_iff.mpr ⟨Nat.le_add_right _ _, front, back, parts, rfl,
        (Nat.add_sub_cancel_left _ _).symm⟩, Option.map_some, String.ofList_toList]
  case finish =>
    have last := Lexeme.getLast?_tokensFrom 0 1 false lexemes
    obtain ⟨front, parts⟩ := List.getLast?_eq_some_iff.mp last
    refine ⟨front, _, parts, rfl, ?_, fun token member => ?_⟩
    · rw [← byteLength_toList, covers, Nat.zero_add]
    · have first : front = (Lexeme.tokensFrom 0 1 false lexemes).dropLast := by
        rw [parts, List.dropLast_concat]
      exact Lexeme.kind_of_mem_dropLast (first ▸ member)
  case empty =>
    intro token member empty inFront
    obtain ⟨kind, front, back, rfl, start, follows⟩ :=
      Lexeme.terminator_of_isEmpty cut member empty inFront
    refine ⟨kind, Lexeme.flat back, dropBytes?_eq_some_iff.mpr ⟨Lexeme.flat front, ?_, ?_⟩, follows⟩
    · rw [covers, Lexeme.flat_append]
    · rw [start, Nat.zero_add]
  case words =>
    intro token member named
    obtain ⟨isWord, front, following, parts, stop, stops⟩ := Lexeme.isWord_of_kind cut member named
    have here : dropBytes? token.span.stop content.toList = some following :=
      dropBytes?_eq_some_iff.mpr ⟨_, covers.trans parts, by rw [stop, Nat.zero_add]⟩
    refine ⟨fun none => ?_, fun c inside => ?_, fun c rest behind => ?_⟩
    · rw [none] at isWord
      exact isWord
    · simpa [isNameChar, or_assoc] using Lexeme.isNameChar_of_isWord isWord c inside
    · rw [Option.some.inj (here.symm.trans behind)] at stops
      simpa [isNameChar, and_assoc] using stops
  case comments => exact matched.imp fun _ _ has => has.standsAt cut covers
  case commentsOrdered => exact Lexeme.pairwise_commentPlaces 0 lexemes
  case apart =>
    intro place member token inside
    obtain ⟨comment, -, has⟩ := exists_mem_of_forall₂ matched.flip member
    exact Lexeme.apart_of_mem inside has
  case commentsComplete =>
    intro offset second rest behind opens
    rw [covers] at behind
    exact Lexeme.opening_of_cut cut behind opens false
  case filled =>
    intro offset c rest behind
    rw [covers] at behind
    exact Lexeme.filled_of_cut cut behind false

end Division

/-- **A text that is scanned is divided among its tokens, its comments, white space and characters
that belong to no name.** -/
theorem TokenStream.divides_of_scan {content : String} {stream : TokenStream}
    (scanned : TokenStream.ofChars? content.toList = .ok stream) :
    ∃ places, stream.Divides content places := by
  obtain ⟨lexemes, covers, cut, rfl⟩ := TokenStream.ofChars?_eq_ok_iff.mp scanned
  exact ⟨Lexeme.commentPlaces 0 lexemes, Lexeme.divides_of_cut cut covers⟩

/-- A delimited comment over two lines, what looks like comments in strings, an escaped quote, and a
letter outside ASCII. -/
def remarkedText : String :=
  "package p // one\n\nvar é = \"// \\\"\" /* two\n // */ + `\n/*`"

/-- The text is divided among its tokens and two comments. -/
theorem TokenStream.divides_remarkedText : ∃ stream,
    TokenStream.ofChars? remarkedText.toList = .ok stream ∧
      (∃ places, stream.Divides remarkedText places) ∧
      stream.comments.map Comment.text = ["one", "two\n //"] ∧
      stream.tokens.map Token.text =
        ["package", "p", "", "var", "é", "=", "\"// \\\"\"", "", "+", "`\n/*`", "", ""] := by
  have evaluated : checkOk (TokenStream.ofChars? remarkedText.toList) (fun stream =>
      stream.comments.map Comment.text == ["one", "two\n //"] &&
      stream.tokens.map Token.text ==
        ["package", "p", "", "var", "é", "=", "\"// \\\"\"", "", "+", "`\n/*`", "", ""]) =
          true := by
    decide +kernel
  obtain ⟨stream, scanned, seen⟩ := exists_of_checkOk evaluated
  obtain ⟨comments, tokens⟩ := Bool.and_eq_true_iff.mp seen
  exact ⟨stream, scanned, TokenStream.divides_of_scan scanned, eq_of_beq comments, eq_of_beq tokens⟩

end GoRefactor
