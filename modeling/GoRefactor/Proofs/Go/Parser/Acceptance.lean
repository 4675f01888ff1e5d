import GoRefactor.Proofs.Go.Parser.Depth
import GoRefactor.Proofs.Go.Parser.Order
import GoRefactor.Proofs.Go.Token.Unfinished
import Mathlib.Data.List.Infix
import Mathlib.Data.List.TakeWhile

/-!
# Which texts are source files

Scanning gives an answer for every text. It accepts exactly the texts in which every lexeme has an
end, the brackets are well nested and a package clause comes first; whatever follows the clause, it
reads something. On the way it never looks where there is nothing: tokens cover the text that they
stand for, the last one marks the end, no limit on calls or rounds is ever reached, and the span of
a function never ends before it starts.
-/

namespace GoRefactor

/-! ## Brackets -/

/-- Lists of brackets that pair up: nothing, or a pair of brackets of one kind around such a list
and in front of another. -/
inductive WellNested : List BracketToken → Prop
  /-- No brackets. -/
  | nil : WellNested []
  /-- A pair of brackets. -/
  | pair {opening closing : BracketToken} {inner rest : List BracketToken} :
    opening.opens = true → closing.opens = false → opening.bracket = closing.bracket →
    WellNested inner → WellNested rest → WellNested (opening :: inner ++ closing :: rest)

/-- Brackets that close those on a stack, the last one first, and pair up apart from that. -/
def Completes : List BracketToken → List BracketToken → Prop
  | [], tokens => WellNested tokens
  | opening :: stack, tokens =>
    ∃ inner closing rest, tokens = inner ++ closing :: rest ∧ WellNested inner ∧
      closing.opens = false ∧ opening.bracket = closing.bracket ∧ Completes stack rest

/-- A pair of brackets in front changes nothing. -/
theorem Completes.pair {opening closing : BracketToken} {stack inner rest : List BracketToken}
    (opens : opening.opens = true) (closes : closing.opens = false)
    (same : opening.bracket = closing.bracket) (nested : WellNested inner)
    (completes : Completes stack rest) : Completes stack (opening :: inner ++ closing :: rest) := by
  cases stack with
  | nil => exact WellNested.pair opens closes same nested completes
  | cons last others =>
    obtain ⟨between, ending, behind, rfl, nested', rest⟩ := completes
    refine ⟨opening :: inner ++ closing :: between, ending, behind, ?_,
      WellNested.pair opens closes same nested nested', rest⟩
    simp

/-- An opening bracket goes onto the stack. -/
theorem bracketFlaw?_opening {token : BracketToken} (opens : token.opens = true)
    (stack rest : List BracketToken) :
    bracketFlaw? stack (token :: rest) = bracketFlaw? (token :: stack) rest := by
  rw [bracketFlaw?.eq_def]
  exact if_pos opens

/-- A closing bracket takes one of its kind from the stack. -/
theorem bracketFlaw?_closing {token : BracketToken} (closes : token.opens = false)
    (stack rest : List BracketToken) :
    bracketFlaw? stack (token :: rest) =
      match stack with
      | [] => some (token.line, .unexpected token.bracket)
      | last :: others =>
        if last.bracket = token.bracket then bracketFlaw? others rest
        else some (token.line, .unexpected token.bracket) := by
  rw [bracketFlaw?.eq_def]
  exact if_neg (by rw [closes]; exact Bool.false_ne_true)

/-- Brackets without a flaw complete the stack. -/
theorem completes_of_bracketFlaw? {stack tokens : List BracketToken}
    (fine : bracketFlaw? stack tokens = none) : Completes stack tokens := by
  induction tokens generalizing stack with
  | nil =>
    cases stack with
    | nil => exact .nil
    | cons last others => cases fine
  | cons token rest ih =>
    cases opens : token.opens with
    | true =>
      rw [bracketFlaw?_opening opens] at fine
      obtain ⟨inner, closing, behind, rfl, nested, closes, same, completes⟩ := ih fine
      exact completes.pair opens closes same nested
    | false =>
      rw [bracketFlaw?_closing opens] at fine
      cases stack with
      | nil => cases fine
      | cons last others =>
        by_cases same : last.bracket = token.bracket
        · simp only [if_pos same] at fine
          exact ⟨[], token, rest, rfl, .nil, opens, same, ih fine⟩
        · simp only [if_neg same] at fine
          cases fine

/-- Well nested brackets leave the stack as it is. -/
theorem bracketFlaw?_append {tokens : List BracketToken} (nested : WellNested tokens)
    (stack more : List BracketToken) :
    bracketFlaw? stack (tokens ++ more) = bracketFlaw? stack more := by
  induction nested generalizing stack more with
  | nil => rfl
  | @pair opening closing inner rest opens closes same _ _ inside behind =>
    calc bracketFlaw? stack (opening :: inner ++ closing :: rest ++ more)
        = bracketFlaw? (opening :: stack) (inner ++ (closing :: (rest ++ more))) := by
          rw [List.append_assoc, List.cons_append, bracketFlaw?_opening opens, List.cons_append]
      _ = bracketFlaw? (opening :: stack) (closing :: (rest ++ more)) := inside _ _
      _ = bracketFlaw? stack (rest ++ more) := by
          rw [bracketFlaw?_closing closes]
          exact if_pos same
      _ = bracketFlaw? stack more := behind _ _

/-- The check of brackets passes exactly the well nested ones. -/
theorem bracketFlaw?_eq_none_iff {tokens : List BracketToken} :
    bracketFlaw? [] tokens = none ↔ WellNested tokens := by
  refine ⟨completes_of_bracketFlaw?, fun nested => ?_⟩
  have kept := bracketFlaw?_append nested [] []
  rw [List.append_nil] at kept
  exact kept

/-! ## Tokens in the text -/

namespace Lexeme

/-- No operator is spelled like a word. -/
theorem not_leads_mark {text : List Char} {c : Char} {rest : List Char}
    (letter : startsName c = true)
    (leads : (Lexeme.mark (c :: text)).Leads rest) : False := by
  cases rest with
  | nil => exact leads
  | cons d cs =>
    obtain ⟨inner, behind, same, -⟩ := next_prefix leads
    obtain ⟨rfl, -⟩ := List.cons.inj same
    rw [Leads, next_of_startsName letter cs] at leads
    cases leads

/-- A token that is a mark has the text of an operator or bracket, which is no word. -/
theorem kind_of_is_word {offset line : Nat} {closable : Bool} {lexemes : List Lexeme}
    (cut : Cut lexemes) {token : Token} (member : token ∈ tokensFrom offset line closable lexemes)
    (c : Char) (text : List Char) (letter : startsName c = true)
    (is : token.is (String.ofList (c :: text)) = true) : token.kind = .keyword := by
  have word : token.text = String.ofList (c :: text) ∧
      (token.kind = .keyword ∨ token.kind = .mark) := by
    simpa [Token.is, and_comm] using is
  have notEmpty : token.text ≠ "" := by
    rw [word.1]
    exact fun same => by simpa using congrArg String.toList same
  obtain ⟨front, back, rfl, -, -, makes⟩ := exists_makes_of_mem_tokensFrom member
  cases makes with
  | @written lexeme rest _ place line made =>
    refine word.2.resolve_right fun isMark => ?_
    have spelled : lexeme.text = c :: text := by
      have same := (text_of_token? made).symm.trans word.1
      simpa using congrArg String.toList same
    cases lexeme with
    | mark spelling =>
      obtain rfl : spelling = c :: text := spelled
      exact not_leads_mark letter (leads_of_cut cut)
    | word spelling =>
      cases made
      simp only at isMark
      split at isMark <;> cases isMark
    | number | quoted | raw | semicolon =>
      cases made
      cases isMark
    | blank | newline | lineComment | blockComment | foreign => cases made
  | inserted => exact absurd rfl notEmpty
  | finish => exact absurd rfl notEmpty

end Lexeme

/-! ## The package clause -/

/-- Behind leading terminators, the keyword `package` and a name come first. -/
def TokenStream.HasPackageClause (stream : TokenStream) : Prop :=
  ∃ leading keyword name rest, stream.tokens = leading ++ keyword :: name :: rest ∧
    (∀ token ∈ leading, token.kind = .terminator) ∧
    (keyword.kind = .keyword ∧ keyword.text = "package") ∧ name.kind = .identifier

/-- The place behind leading terminators. -/
def Cursor.pastTerminators (cursor : Cursor) : Cursor :=
  cursor.advanceBy (cursor.ahead.takeWhile Token.isTerminator).length

namespace Parse

/-- The token next to a place is the first one ahead. -/
theorem ahead_of_peekAt {cursor : Cursor} (finishes : cursor.finish.kind = .finish)
    (goesOn : (cursor.peekAt 0).kind ≠ .finish) :
    ∃ rest, cursor.ahead = cursor.peekAt 0 :: rest := by
  unfold Cursor.peekAt at goesOn ⊢
  cases next : cursor.ahead with
  | nil =>
    rw [next] at goesOn
    exact absurd finishes goesOn
  | cons token rest => exact ⟨rest, rfl⟩

/-- A keyword or mark neither marks the end nor ends a statement. -/
theorem kind_of_is {token : Token} {text : String} (is : token.is text = true) :
    token.kind ≠ .finish ∧ token.isTerminator = false := by
  unfold Token.is at is
  unfold Token.isTerminator
  cases kind : token.kind <;> simp_all

/-- The package clause is read from behind the leading terminators. -/
theorem run_packageClause_eq (cursor : Cursor) :
    packageClause.run cursor =
      (eat "package" >>= fun found =>
        if found = true then
          peek >>= fun token =>
            if (token.kind == .identifier) = true then take >>= fun name => pure (.ok name)
            else pure (.error (token.line, ParseFlaw.noPackageName token.text))
        else
          peek >>= fun token => pure (.error (token.line, ParseFlaw.noPackageClause))).run
        cursor.pastTerminators :=
  rfl

/-- What the package clause is read from: the two tokens behind the leading terminators. -/
theorem run_packageClause (cursor : Cursor) (name : Token) :
    (packageClause.run cursor).1 = .ok name ↔
      (cursor.pastTerminators.peekAt 0).is "package" = true ∧
        cursor.pastTerminators.advance.peekAt 0 = name ∧ name.kind = .identifier := by
  let place := cursor.pastTerminators
  rw [run_packageClause_eq, run_bind, run_eat]
  by_cases found : (place.peekAt 0).is "package" = true
  · rw [if_pos found]
    change ((if ((place.advance.peekAt 0).kind == .identifier) = true then _ else _ :
      Parse _).run place.advance).1 = _ ↔ _
    by_cases named : (place.advance.peekAt 0).kind = .identifier
    · rw [if_pos (beq_iff_eq.mpr named)]
      constructor
      · intro given
        cases given
        exact ⟨found, rfl, named⟩
      · rintro ⟨-, rfl, -⟩
        rfl
    · rw [if_neg (fun same => named (beq_iff_eq.mp same))]
      constructor
      · intro given
        cases given
      · rintro ⟨-, rfl, isName⟩
        exact absurd isName named
  · rw [if_neg found]
    constructor
    · intro given
      cases given
    · rintro ⟨given, -, -⟩
      exact absurd given found

/-- The package clause is read exactly when it is there. -/
theorem packageClause_eq_ok_iff {cursor : Cursor} (finishes : cursor.finish.kind = .finish)
    {name : Token} :
    (packageClause.run cursor).1 = .ok name ↔
      ∃ leading keyword rest, cursor.ahead = leading ++ keyword :: name :: rest ∧
        (∀ token ∈ leading, token.isTerminator = true) ∧ keyword.is "package" = true ∧
        name.kind = .identifier := by
  rw [run_packageClause]
  have finishes' : cursor.pastTerminators.finish.kind = .finish := by
    unfold Cursor.pastTerminators
    rw [Cursor.finish_advanceBy]
    exact finishes
  have remaining : cursor.pastTerminators.ahead =
      cursor.ahead.drop (cursor.ahead.takeWhile Token.isTerminator).length :=
    Cursor.ahead_advanceBy _ _
  constructor
  · rintro ⟨found, rfl, named⟩
    obtain ⟨rest, ahead⟩ := ahead_of_peekAt finishes' (kind_of_is found).1
    obtain ⟨others, behind⟩ := ahead_of_peekAt
      (by rw [Cursor.finish_advance]; exact finishes') (by rw [named]; decide)
    rw [Cursor.ahead_advance, ahead, List.tail_cons] at behind
    rw [remaining, behind] at ahead
    refine ⟨cursor.ahead.takeWhile Token.isTerminator, _, others, ?_, ?_, found, named⟩
    · rw [← ahead]
      exact List.prefix_append_drop (List.takeWhile_prefix _)
    · intro token member
      exact List.mem_takeWhile_imp member
  · rintro ⟨leading, keyword, rest, ahead, terminators, found, named⟩
    have front : cursor.ahead.takeWhile Token.isTerminator = leading := by
      rw [ahead, List.takeWhile_append_of_pos terminators, List.takeWhile_cons,
        (kind_of_is found).2]
      simp
    have next : cursor.pastTerminators.ahead = keyword :: name :: rest := by
      rw [remaining, front, ahead, List.drop_left]
    refine ⟨?_, ?_, named⟩
    · unfold Cursor.peekAt
      rw [next]
      exact found
    · unfold Cursor.peekAt
      rw [Cursor.ahead_advance, next]
      rfl

/-- Behind the package clause a place is past the two tokens that it is read from. -/
theorem run_packageClause_of_ok {cursor : Cursor} {name : Token}
    (read : (packageClause.run cursor).1 = .ok name) :
    packageClause.run cursor = (.ok name, cursor.pastTerminators.advance.advance) := by
  obtain ⟨found, rfl, named⟩ := (run_packageClause cursor name).mp read
  let place := cursor.pastTerminators.advance
  rw [run_packageClause_eq, run_bind, run_eat, if_pos found]
  change (if ((place.peekAt 0).kind == .identifier) = true then _ else _ : Parse _).run place = _
  rw [if_pos (beq_iff_eq.mpr named)]
  rfl

/-- The token that names the package is the last one that the package clause takes. -/
theorem lastEnd_packageClause {cursor : Cursor} (ordered : cursor.Ordered) {name : Token}
    (read : (packageClause.run cursor).1 = .ok name) :
    (packageClause.run cursor).2.lastEnd = name.span.stop := by
  have runs := run_packageClause_of_ok read
  obtain ⟨-, rfl, named⟩ := (run_packageClause cursor name).mp read
  let place := cursor.pastTerminators.advance
  have ordered' : place.Ordered :=
    Cursor.Stable.advance _ (Cursor.Stable.advanceBy ordered _)
  obtain ⟨rest, ahead⟩ := ahead_of_peekAt ordered'.finishes (by rw [named]; decide)
  have goesOn : (place.peekAt 0).isTerminator = false := by
    unfold Token.isTerminator
    rw [named]
    rfl
  rw [runs, (ordered'.lastEnd_advance ahead goesOn).2]

end Parse

/-! ## Functions -/

/-- A function that was read ends behind the start of its keyword. -/
theorem Parse.funcDecl_start_le {cursor : Cursor} (ordered : cursor.Ordered)
    (finishes : cursor.finish.kind = .finish) (found : (cursor.peekAt 0).is "func" = true)
    (limit : Nat) :
    (cursor.peekAt 0).span.start ≤ ((Parse.funcDecl limit).run cursor).2.lastEnd := by
  obtain ⟨rest, ahead⟩ := Parse.ahead_of_peekAt finishes (Parse.kind_of_is found).1
  have member : cursor.peekAt 0 ∈ cursor.ahead := by
    rw [ahead]
    exact List.mem_cons_self
  have taken : cursor.advance.lastEnd = (cursor.peekAt 0).span.stop := by
    rw [Cursor.advance_of_cons ahead]
    simp only [(Parse.kind_of_is found).2]
    rfl
  have split : ∃ following : Parse (List TopDecl),
      (Parse.funcDecl limit).run cursor = following.run cursor.advance := by
    rw [Parse.funcDecl, Parse.run_bind, Parse.run_bind]
    exact ⟨_, rfl⟩
  obtain ⟨following, runs⟩ := split
  calc (cursor.peekAt 0).span.start
      ≤ (cursor.peekAt 0).span.stop := ordered.order _ member
    _ = cursor.advance.lastEnd := taken.symm
    _ ≤ (following.run cursor.advance).2.lastEnd :=
        (Cursor.Stable.advance cursor ordered).lastEnd_le_run following
    _ = ((Parse.funcDecl limit).run cursor).2.lastEnd := by rw [runs]

/-! ## Acceptance -/

namespace TokenStream

variable {content : List Char} {stream : TokenStream}

/-- The package clause is read from the stream of a text exactly when it is there. -/
theorem exists_parse_iff (scanned : ofChars? content = .ok stream) :
    (∃ result, stream.parse = .ok result) ↔ stream.HasPackageClause := by
  obtain ⟨concat, finishes⟩ := tokens_eq_concat scanned
  obtain ⟨lexemes, -, cut, tokens⟩ := lexemes_of_ofChars? scanned
  have read : (∃ result, stream.parse = .ok result) ↔
      ∃ name, (Parse.packageClause.run (Cursor.start stream)).1 = .ok name := by
    unfold parse
    rcases Parse.packageClause.run (Cursor.start stream) with ⟨_ | name, cursor⟩
    · simp
    · simp
  rw [read]
  constructor
  · rintro ⟨name, given⟩
    obtain ⟨leading, keyword, rest, ahead, terminators, found, named⟩ :=
      (Parse.packageClause_eq_ok_iff finishes).mp given
    have whole : stream.tokens =
        leading ++ keyword :: name :: (rest ++ [(Cursor.start stream).finish]) := by
      rw [concat, ahead]
      simp
    have member : keyword ∈ Lexeme.tokensFrom 0 1 false lexemes := by
      rw [← tokens, whole]
      simp
    have isKeyword : keyword.kind = .keyword :=
      Lexeme.kind_of_is_word cut member 'p' ['a', 'c', 'k', 'a', 'g', 'e'] (by decide) found
    refine ⟨leading, keyword, name, _, whole, ?_, ⟨isKeyword, ?_⟩, named⟩
    · exact fun token inside => eq_of_beq (terminators token inside)
    · exact eq_of_beq (Bool.and_eq_true_iff.mp found).2
  · rintro ⟨leading, keyword, name, rest, whole, terminators, ⟨kind, text⟩, named⟩
    refine ⟨name, (Parse.packageClause_eq_ok_iff finishes).mpr ?_⟩
    -- The last token is no name, so more follows the one that is.
    have front : (Cursor.start stream).ahead ++ [(Cursor.start stream).finish] =
        (leading ++ [keyword, name]) ++ rest := by
      rw [← concat, whole]
      simp
    obtain ⟨others, ahead⟩ : ∃ others,
        (Cursor.start stream).ahead = (leading ++ [keyword, name]) ++ others := by
      rcases List.eq_nil_or_concat rest with rfl | ⟨others, last, rfl⟩
      · have same : (Cursor.start stream).finish = name := by
          have lasts := congrArg List.getLast? front
          rw [List.getLast?_concat] at lasts
          simpa using lasts
        rw [← same, finishes] at named
        cases named
      · rw [List.concat_eq_append, ← List.append_assoc] at front
        exact ⟨others, (List.append_inj' front rfl).1⟩
    refine ⟨leading, keyword, others, by simpa using ahead, ?_, ?_, named⟩
    · exact fun token inside => beq_iff_eq.mpr (terminators token inside)
    · rw [Token.is, kind, text]
      rfl

end TokenStream

/-- **Scanning is total and accepts exactly the source files.**

A text is accepted exactly when it has tokens, its brackets are well nested and a package clause
comes first; and it has tokens exactly when every comment and literal in it has an end.

When a text has tokens, each covers the text that it stands for, and the last one marks the end.
From every place among them, greater limits on calls and rounds read the same declarations, and a
function that starts there ends behind the start of its keyword. -/
theorem parse_total_and_exact (path content : String) :
    ((∃ file, SourceFile.parse path content = .ok file) ↔
      ∃ stream, TokenStream.ofChars? content.toList = .ok stream ∧
        WellNested (stream.tokens.filterMap Token.bracket?) ∧ stream.HasPackageClause) ∧
    ((∃ stream, TokenStream.ofChars? content.toList = .ok stream) ↔
      ¬Lexeme.Unfinished content.toList) ∧
    ∀ stream, TokenStream.ofChars? content.toList = .ok stream →
      (∀ token ∈ stream.tokens, token.span.slice? content = some token.text) ∧
      (∃ front finish, stream.tokens = front ++ [finish] ∧ finish.kind = .finish) ∧
      ∀ count place, place = (Cursor.start stream).advanceBy count →
        (∀ depth rounds, depthLimit place.ahead.length ≤ depth →
          depthLimit place.ahead.length ≤ rounds →
          (Parse.declarations depth rounds).run place =
            (Parse.declarations (depthLimit place.ahead.length)
              (depthLimit place.ahead.length)).run place) ∧
        ∀ limit, (place.peekAt 0).is "func" = true →
          (place.peekAt 0).span.start ≤ ((Parse.funcDecl limit).run place).2.lastEnd := by
  refine ⟨?_, TokenStream.exists_ofChars?_iff, ?_⟩
  · unfold SourceFile.parse
    cases scanned : TokenStream.ofChars? content.toList with
    | error failure => simp
    | ok stream =>
      simp only [Except.ok.injEq, exists_eq_left', ← bracketFlaw?_eq_none_iff,
        ← TokenStream.exists_parse_iff scanned]
      cases bracketFlaw? [] (stream.tokens.filterMap Token.bracket?) with
      | some flaw => simp
      | none =>
        cases stream.parse with
        | error failure => simp
        | ok result => simp
  · intro stream scanned
    obtain ⟨concat, finishes⟩ := TokenStream.tokens_eq_concat scanned
    refine ⟨fun token => TokenStream.slice?_of_mem scanned, ⟨_, _, concat, finishes⟩, ?_⟩
    rintro count place rfl
    have finishes' : ((Cursor.start stream).advanceBy count).finish.kind = .finish := by
      rw [Cursor.finish_advanceBy]
      exact finishes
    refine ⟨fun depth rounds deep often =>
      Parse.declarations_of_depthLimit_le finishes' deep often, fun limit found => ?_⟩
    exact Parse.funcDecl_start_le
      (Cursor.Stable.advanceBy (TokenStream.ordered_start scanned) count) finishes' found limit

end GoRefactor
