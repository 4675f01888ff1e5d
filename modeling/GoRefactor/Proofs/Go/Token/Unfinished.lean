import GoRefactor.Proofs.Go.Token.Layout

/-!
# Texts that cannot be cut

Cutting a text into lexemes fails for one reason only: somewhere behind complete lexemes it opens
a delimited comment, a quoted literal or a raw string that has no end. The flaw is that of the
first such place, and it is reported with the line on which the place is.
-/

namespace GoRefactor

namespace Lexeme

/-- The text past an opening quote comes to a closing one on its line. A backslash takes the
character behind it along, whatever it is. -/
inductive Closed (quote : Char) : List Char → Prop
  /-- The closing quote. -/
  | quote (rest : List Char) : Closed quote (quote :: rest)
  /-- An escaped character. -/
  | escape (c : Char) {rest : List Char} : Closed quote rest → Closed quote ('\\' :: c :: rest)
  /-- Another character of the line. -/
  | other {c : Char} {rest : List Char} : c ≠ quote → c ≠ '\\' → c ≠ '\n' → Closed quote rest →
    Closed quote (c :: rest)

/-- The text opens something that has no end. -/
inductive Open : LexemeFlaw → List Char → Prop
  /-- A delimited comment without its closing delimiter. -/
  | comment {body : List Char} : ¬['*', '/'] <:+: body → Open .openComment ('/' :: '*' :: body)
  /-- A string or rune without its closing quote. -/
  | literal {quote : Char} {body : List Char} : quote = '"' ∨ quote = '\x27' →
    ¬Closed quote body → Open .openLiteral (quote :: body)
  /-- A raw string without its closing quote. -/
  | rawString {body : List Char} : '\x60' ∉ body → Open .openRawString ('\x60' :: body)

/-- Something is opened by a character. -/
theorem Open.ne_nil {flaw : LexemeFlaw} {text : List Char} (opens : Open flaw text) :
    text ≠ [] := by
  cases opens <;> exact List.cons_ne_nil _ _

/-- A delimited comment ends exactly when its closing delimiter stands in the text. -/
theorem commentBody?_eq_none_iff {cs : List Char} :
    commentBody? cs = none ↔ ¬['*', '/'] <:+: cs := by
  fun_induction commentBody? cs with
  | case1 => simp
  | case2 rest =>
    refine ⟨fun given => (by cases given), fun absent => absurd ?_ absent⟩
    exact ⟨[], rest, rfl⟩
  | case3 c cs notEnd ih =>
    rw [Option.map_eq_none_iff, ih, List.infix_cons_iff, not_or]
    refine ⟨fun absent => ⟨?_, absent⟩, fun absent => absent.2⟩
    rintro ⟨rest, same⟩
    obtain ⟨rfl, rfl⟩ := List.cons.inj same
    exact notEnd rest rfl rfl

/-- A raw string ends exactly when another of its quotes stands in the text. -/
theorem rawBody?_eq_none_iff {cs : List Char} : rawBody? cs = none ↔ '\x60' ∉ cs := by
  fun_induction rawBody? cs with
  | case1 => simp
  | case2 c cs isQuote => simp [eq_of_beq isQuote]
  | case3 c cs notQuote ih =>
    have apart : '\x60' ≠ c := fun same => notQuote (beq_iff_eq.mpr same.symm)
    rw [Option.map_eq_none_iff, ih, List.mem_cons, not_or]
    exact ⟨fun absent => ⟨apart, absent⟩, fun absent => absent.2⟩

/-- A quoted literal ends exactly when its text comes to a closing quote. -/
theorem quotedBody?_ne_none_iff {quote : Char} (proper : quote ≠ '\\' ∧ quote ≠ '\n')
    {cs : List Char} : quotedBody? quote cs ≠ none ↔ Closed quote cs := by
  fun_induction quotedBody? quote cs with
  | case1 =>
    refine ⟨fun given => absurd rfl given, fun closed => ?_⟩
    cases closed
  | case2 c cs ih =>
    rw [Ne, Option.map_eq_none_iff]
    refine ⟨fun given => .escape c (ih.mp given), fun closed => ih.mpr ?_⟩
    cases closed with
    | quote => exact absurd rfl proper.1
    | escape _ rest => exact rest
    | other _ plain => exact absurd rfl plain
  | case3 c cs notEscape stops =>
    refine ⟨fun given => absurd rfl given, fun closed => ?_⟩
    rcases Bool.or_eq_true_iff.mp stops with line | backslash
    · have isLine := eq_of_beq line
      subst isLine
      cases closed with
      | quote => exact absurd rfl proper.2
      | other _ _ plain => exact absurd rfl plain
    · have isBackslash := eq_of_beq backslash
      subst isBackslash
      cases closed with
      | quote => exact absurd rfl proper.1
      | escape d rest => exact absurd rfl (notEscape d _ rfl)
      | other _ plain => exact absurd rfl plain
  | case4 c cs notEscape plain isQuote =>
    refine ⟨fun _ => ?_, fun _ given => by cases given⟩
    rw [eq_of_beq isQuote]
    exact .quote cs
  | case5 c cs notEscape plain notQuote ih =>
    rw [Ne, Option.map_eq_none_iff]
    simp only [Bool.or_eq_true, beq_iff_eq, not_or] at plain notQuote
    refine ⟨fun given => .other notQuote plain.2 plain.1 (ih.mp given), fun closed => ih.mpr ?_⟩
    cases closed with
    | quote => exact absurd rfl notQuote
    | escape => exact absurd rfl plain.2
    | other _ _ _ rest => exact rest

/-- A text leads with nothing exactly when it opens something that has no end. -/
theorem next_eq_error_iff {c : Char} {cs : List Char} {flaw : LexemeFlaw} :
    next c cs = .error flaw ↔ Open flaw (c :: cs) := by
  constructor
  · intro failed
    unfold next at failed
    split at failed
    · cases failed
    split at failed
    · cases failed
    split at failed
    · cases failed
    split at failed
    · rename_i opens
      obtain ⟨slash, star⟩ := Bool.and_eq_true_iff.mp opens
      obtain rfl := eq_of_beq slash
      split at failed
      · cases failed
      · rename_i unfinished
        cases failed
        cases cs with
        | nil => cases star
        | cons d body =>
          obtain rfl : d = '*' := by simpa using star
          exact .comment (commentBody?_eq_none_iff.mp unfinished)
    split at failed
    · split at failed <;> cases failed
    split at failed
    · cases failed
    split at failed
    · rename_i opens
      have isQuote : c = '"' ∨ c = '\x27' := by simpa using opens
      have proper : c ≠ '\\' ∧ c ≠ '\n' := by
        rcases isQuote with rfl | rfl
        · decide
        · decide
      split at failed
      · cases failed
      · rename_i unfinished
        cases failed
        refine .literal isQuote fun closed => ?_
        exact (quotedBody?_ne_none_iff proper).mpr closed unfinished
    split at failed
    · rename_i opens
      obtain rfl := eq_of_beq opens
      split at failed
      · cases failed
      · rename_i unfinished
        cases failed
        exact .rawString (rawBody?_eq_none_iff.mp unfinished)
    split at failed
    · cases failed
    · cases failed
  · intro opens
    cases opens with
    | comment absent =>
      have none := commentBody?_eq_none_iff.mpr absent
      simp [next, isSpace, none]
    | @literal _ _ isQuote absent =>
      rcases isQuote with rfl | rfl
      · have none : quotedBody? '"' cs = none :=
          of_not_not fun given => absent ((quotedBody?_ne_none_iff (by decide)).mp given)
        simp [next, isSpace, startsNumber, none]
      · have none : quotedBody? '\x27' cs = none :=
          of_not_not fun given => absent ((quotedBody?_ne_none_iff (by decide)).mp given)
        simp [next, isSpace, startsNumber, none]
    | rawString absent =>
      have none := rawBody?_eq_none_iff.mpr absent
      simp [next, isSpace, startsNumber, none]

/-- Each of the lexemes is what the text from its start on leads with, up to the rest. -/
def CutBefore (rest : List Char) : List Lexeme → Prop
  | [] => True
  | lexeme :: others => lexeme.Leads (lexeme.text ++ (flat others ++ rest)) ∧ CutBefore rest others

/-- Behind complete lexemes the text opens something that has no end. -/
def Unfinished (content : List Char) : Prop :=
  ∃ lexemes rest flaw, content = flat lexemes ++ rest ∧ CutBefore rest lexemes ∧ Open flaw rest

/-- Cutting fails exactly where, behind complete lexemes, the text opens something that has no
end. -/
theorem split_eq_error_iff {line : Nat} {content : List Char} {failure : Nat × LexemeFlaw} :
    split line content = .error failure ↔
      ∃ lexemes rest, content = flat lexemes ++ rest ∧ CutBefore rest lexemes ∧
        Open failure.2 rest ∧ failure.1 = line + lineCount lexemes := by
  fun_induction split line content with
  | case1 line =>
    refine ⟨fun given => (by cases given), ?_⟩
    rintro ⟨lexemes, rest, covers, -, opens, -⟩
    exact absurd (List.append_eq_nil_iff.mp covers.symm).2 opens.ne_nil
  | case2 line c cs flaw flawed =>
    constructor
    · intro given
      cases given
      exact ⟨[], c :: cs, rfl, trivial, next_eq_error_iff.mp flawed, rfl⟩
    · rintro ⟨lexemes, rest, covers, cut, opens, at_⟩
      cases lexemes with
      | nil =>
        obtain rfl : c :: cs = rest := covers
        rw [← next_eq_error_iff, flawed] at opens
        obtain rfl := Except.error.inj opens
        exact congrArg Except.error (Prod.ext at_.symm rfl)
      | cons lexeme others =>
        rw [flat_cons, List.append_assoc] at covers
        have leads := cut.1
        rw [← covers, Leads, flawed] at leads
        cases leads
  | case3 line c cs first leads failure' failed ih =>
    constructor
    · intro given
      cases given
      obtain ⟨others, rest, covers, cut, opens, at_⟩ := ih.mp failed
      obtain ⟨inner, behind, text, same⟩ := next_prefix leads
      have whole : c :: cs = first.text ++ (flat others ++ rest) := by
        rw [← covers, text, same]
        simp
      refine ⟨first :: others, rest, ?_, ⟨?_, cut⟩, opens, ?_⟩
      · rw [whole, flat_cons, List.append_assoc]
      · rw [← whole]
        exact leads
      · rw [at_, lineCount_cons, Nat.add_assoc]
    · rintro ⟨lexemes, rest, covers, cut, opens, at_⟩
      cases lexemes with
      | nil =>
        obtain rfl : c :: cs = rest := covers
        rw [← next_eq_error_iff, leads] at opens
        cases opens
      | cons lexeme others =>
        rw [flat_cons, List.append_assoc] at covers
        have here := cut.1
        rw [← covers, Leads, leads] at here
        cases here
        have further := ih.mpr ⟨others, rest, drop_of_leads leads covers, cut.2, opens, by
          rw [at_, lineCount_cons, Nat.add_assoc]⟩
        rw [failed] at further
        exact further
  | case4 line c cs first leads others cutOthers ih =>
    refine ⟨fun given => (by cases given), ?_⟩
    rintro ⟨lexemes, rest, covers, cut, opens, at_⟩
    cases lexemes with
    | nil =>
      obtain rfl : c :: cs = rest := covers
      rw [← next_eq_error_iff, leads] at opens
      cases opens
    | cons lexeme more =>
      rw [flat_cons, List.append_assoc] at covers
      have here := cut.1
      rw [← covers, Leads, leads] at here
      cases here
      have further := ih.mpr ⟨more, rest, drop_of_leads leads covers, cut.2, opens, by
        rw [at_, lineCount_cons, Nat.add_assoc]⟩
      rw [cutOthers] at further
      cases further

end Lexeme

/-- A text has tokens exactly when nothing in it lacks its end. -/
theorem TokenStream.exists_ofChars?_iff {content : List Char} :
    (∃ stream, ofChars? content = .ok stream) ↔ ¬Lexeme.Unfinished content := by
  unfold ofChars?
  cases cut : Lexeme.split 1 content with
  | error failure =>
    refine ⟨fun ⟨_, given⟩ => (by cases given), fun finished => absurd ?_ finished⟩
    obtain ⟨lexemes, rest, covers, complete, opens, -⟩ := Lexeme.split_eq_error_iff.mp cut
    exact ⟨lexemes, rest, failure.2, covers, complete, opens⟩
  | ok lexemes =>
    refine ⟨fun _ => ?_, fun _ => ⟨_, rfl⟩⟩
    rintro ⟨others, rest, flaw, covers, complete, opens⟩
    have failed := Lexeme.split_eq_error_iff.mpr
      ⟨others, rest, covers, complete, opens, (rfl : (1 + Lexeme.lineCount others, flaw).1 = _)⟩
    rw [cut] at failed
    cases failed

end GoRefactor
