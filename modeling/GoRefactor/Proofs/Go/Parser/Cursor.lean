import GoRefactor.Go.Parser.File
import Mathlib.Data.List.Forall2

/-!
# Moving a cursor

What moving a cursor does to its parts, and how far the steps that pass over several tokens go.
Such a step never goes past the end, and as long as it stops before the end, tokens behind the end
would not change where it stops. Nor does the spelling of names and literals: it goes as far over
tokens that are alike, which are of one kind and, if keywords or marks, have one text.
-/

namespace GoRefactor

namespace Cursor

/-- Moving on leaves the tokens behind those that were passed. -/
@[simp]
theorem ahead_advance (cursor : Cursor) : cursor.advance.ahead = cursor.ahead.tail := by
  unfold advance
  cases next : cursor.ahead with
  | nil => exact next
  | cons token rest => rfl

/-- Moving on keeps the token at the end. -/
@[simp]
theorem finish_advance (cursor : Cursor) : cursor.advance.finish = cursor.finish := by
  unfold advance
  cases cursor.ahead with
  | nil => rfl
  | cons token rest => rfl

/-- Moving on keeps the comments. -/
@[simp]
theorem notes_advance (cursor : Cursor) : cursor.advance.notes = cursor.notes := by
  unfold advance
  cases cursor.ahead with
  | nil => rfl
  | cons token rest => rfl

/-- At the end there is nowhere to move. -/
theorem advance_of_nil {cursor : Cursor} (done : cursor.ahead = []) : cursor.advance = cursor := by
  unfold advance
  rw [done]

/-- Taking a token counts it and, terminators apart, remembers where it ends. -/
theorem advance_of_cons {cursor : Cursor} {token : Token} {rest : List Token}
    (next : cursor.ahead = token :: rest) :
    cursor.advance = { cursor with
      ahead := rest
      taken := cursor.taken + 1
      lastEnd := if token.isTerminator then cursor.lastEnd else token.span.stop } := by
  unfold advance
  rw [next]

/-- Moving by several tokens leaves those behind. -/
@[simp]
theorem ahead_advanceBy (count : Nat) (cursor : Cursor) :
    (cursor.advanceBy count).ahead = cursor.ahead.drop count := by
  induction count generalizing cursor with
  | zero => rfl
  | succ count ih =>
    rw [advanceBy, ih, ahead_advance]
    cases cursor.ahead with
    | nil => simp
    | cons token rest => rfl

/-- Moving by several tokens keeps the token at the end. -/
@[simp]
theorem finish_advanceBy (count : Nat) (cursor : Cursor) :
    (cursor.advanceBy count).finish = cursor.finish := by
  induction count generalizing cursor with
  | zero => rfl
  | succ count ih => rw [advanceBy, ih, finish_advance]

/-- Moving by several tokens keeps the comments. -/
@[simp]
theorem notes_advanceBy (count : Nat) (cursor : Cursor) :
    (cursor.advanceBy count).notes = cursor.notes := by
  induction count generalizing cursor with
  | zero => rfl
  | succ count ih => rw [advanceBy, ih, notes_advance]

/-- Tokens are counted as they are taken. -/
theorem taken_advanceBy {count : Nat} {cursor : Cursor} (inside : count ≤ cursor.ahead.length) :
    (cursor.advanceBy count).taken = cursor.taken + count := by
  induction count generalizing cursor with
  | zero => rfl
  | succ count ih =>
    cases next : cursor.ahead with
    | nil =>
      rw [next] at inside
      simp at inside
    | cons token rest =>
      have shorter : count ≤ cursor.advance.ahead.length := by
        rw [next, List.length_cons] at inside
        rw [ahead_advance, next, List.tail_cons]
        omega
      rw [advanceBy, ih shorter, advance_of_cons next]
      exact Nat.succ_add_eq_add_succ cursor.taken count

/-- Tokens are never given back. -/
theorem taken_le_advanceBy (count : Nat) (cursor : Cursor) :
    cursor.taken ≤ (cursor.advanceBy count).taken := by
  induction count generalizing cursor with
  | zero => exact Nat.le_refl _
  | succ count ih =>
    have first : cursor.taken ≤ cursor.advance.taken := by
      unfold advance
      cases cursor.ahead with
      | nil => exact Nat.le_refl _
      | cons token rest => exact Nat.le_succ _
    exact Nat.le_trans first (ih cursor.advance)

end Cursor

/-- Tokens that the parser cannot tell apart: of one kind and, if keywords or marks, with one
text. -/
structure Token.Alike (left right : Token) : Prop where
  /-- The kinds are the same. -/
  kind : right.kind = left.kind
  /-- Keywords and marks have the same text. -/
  text : left.kind = .keyword ∨ left.kind = .mark → right.text = left.text

namespace Token.Alike

variable {left right : Token}

/-- A keyword or mark is the same one. -/
theorem is_eq (alike : left.Alike right) (text : String) : right.is text = left.is text := by
  unfold Token.is
  rw [alike.kind]
  cases kind : left.kind with
  | keyword => rw [alike.text (Or.inl kind)]
  | mark => rw [alike.text (Or.inr kind)]
  | _ => rfl

/-- Terminators are alike terminators only. -/
theorem isTerminator_eq (alike : left.Alike right) : right.isTerminator = left.isTerminator := by
  unfold Token.isTerminator
  rw [alike.kind]

/-- Opening brackets are alike opening brackets only. -/
theorem opensGroup_eq (alike : left.Alike right) : right.opensGroup = left.opensGroup := by
  unfold Token.opensGroup
  rw [alike.kind]
  cases kind : left.kind with
  | keyword => rw [alike.text (Or.inl kind)]
  | mark => rw [alike.text (Or.inr kind)]
  | _ => rfl

/-- Closing brackets are alike closing brackets only. -/
theorem closesGroup_eq (alike : left.Alike right) : right.closesGroup = left.closesGroup := by
  unfold Token.closesGroup
  rw [alike.kind]
  cases kind : left.kind with
  | keyword => rw [alike.text (Or.inl kind)]
  | mark => rw [alike.text (Or.inr kind)]
  | _ => rfl

/-- What starts a type does so in either stream. -/
theorem startsType_eq (alike : left.Alike right) : right.startsType = left.startsType := by
  unfold Token.startsType
  rw [alike.kind]
  cases kind : left.kind with
  | keyword => rw [alike.text (Or.inl kind)]
  | mark => rw [alike.text (Or.inr kind)]
  | _ => rfl

/-- What ends a statement does so in either stream. -/
theorem endsStatement_eq (alike : left.Alike right) : right.endsStatement = left.endsStatement := by
  unfold Token.endsStatement
  rw [alike.isTerminator_eq, alike.is_eq, alike.kind]

/-- What ends the place of an operand does so in either stream. -/
theorem endsOperand_eq (alike : left.Alike right) : right.endsOperand = left.endsOperand := by
  unfold Token.endsOperand
  rw [alike.endsStatement_eq, alike.is_eq, alike.is_eq, alike.is_eq]

/-- What ends the place of a type does so in either stream. -/
theorem endsType_eq (alike : left.Alike right) : right.endsType = left.endsType := by
  unfold Token.endsType
  rw [alike.endsOperand_eq, alike.is_eq]

/-- Unary operators are the same. -/
theorem unaryOp?_eq (alike : left.Alike right) : right.unaryOp? = left.unaryOp? := by
  unfold Token.unaryOp?
  simp only [alike.is_eq]

end Token.Alike

/-- A group ends before the tokens do. -/
theorem groupLength_le (depth : Nat) (tokens : List Token) :
    groupLength depth tokens ≤ tokens.length := by
  fun_induction groupLength depth tokens with
  | case1 => exact Nat.le_refl _
  | case2 depth token rest depth' closed =>
    rw [List.length_cons]
    omega
  | case3 depth token rest depth' inside ih =>
    rw [List.length_cons]
    omega

/-- Tokens behind a group that ends do not change its length. -/
theorem groupLength_append (depth : Nat) (tokens more : List Token)
    (ends : groupLength depth tokens < tokens.length) :
    groupLength depth (tokens ++ more) = groupLength depth tokens := by
  fun_induction groupLength depth tokens with
  | case1 => simp at ends
  | case2 depth token rest depth' closed => rw [List.cons_append, groupLength, if_pos closed]
  | case3 depth token rest depth' inside ih =>
    rw [List.length_cons] at ends
    rw [List.cons_append, groupLength, if_neg inside, ih (by omega)]

/-- Groups of alike tokens are of one length. -/
theorem groupLength_alike {left right : List Token} (alike : List.Forall₂ Token.Alike left right)
    (depth : Nat) : groupLength depth right = groupLength depth left := by
  induction alike generalizing depth with
  | nil => rfl
  | cons first _ ih =>
    rw [groupLength, groupLength, first.opensGroup_eq, first.closesGroup_eq]
    simp only [ih]

/-- A statement ends before the tokens do. -/
theorem statementLength_le (depth : Nat) (tokens : List Token) :
    statementLength depth tokens ≤ tokens.length := by
  fun_induction statementLength depth tokens with
  | case1 => exact Nat.zero_le _
  | case2 => exact Nat.zero_le _
  | case3 token rest _ ih =>
    rw [List.length_cons]
    omega
  | case4 depth token rest ih =>
    rw [List.length_cons]
    omega

/-- Tokens behind a statement that ends do not change its length. -/
theorem statementLength_append (depth : Nat) (tokens more : List Token)
    (ends : statementLength depth tokens < tokens.length) :
    statementLength depth (tokens ++ more) = statementLength depth tokens := by
  fun_induction statementLength depth tokens with
  | case1 => simp at ends
  | case2 token rest terminator => rw [List.cons_append, statementLength, if_pos terminator]
  | case3 token rest inside ih =>
    rw [List.length_cons] at ends
    rw [List.cons_append, statementLength, if_neg inside, ih (by omega)]
  | case4 depth token rest ih =>
    rw [List.length_cons] at ends
    rw [List.cons_append, statementLength, ih (by omega)]

/-- Statements of alike tokens are of one length. -/
theorem statementLength_alike {left right : List Token}
    (alike : List.Forall₂ Token.Alike left right) (depth : Nat) :
    statementLength depth right = statementLength depth left := by
  induction alike generalizing depth with
  | nil => cases depth <;> rfl
  | cons first _ ih =>
    cases depth with
    | zero =>
      rw [statementLength, statementLength, first.isTerminator_eq, first.opensGroup_eq]
      simp only [ih]
    | succ depth =>
      rw [statementLength, statementLength, first.opensGroup_eq, first.closesGroup_eq, ih]

/-- Terminators in front end before the tokens do. -/
theorem takeWhile_append_of_lt (test : Token → Bool) (tokens more : List Token)
    (ends : (tokens.takeWhile test).length < tokens.length) :
    (tokens ++ more).takeWhile test = tokens.takeWhile test := by
  induction tokens with
  | nil => simp at ends
  | cons token rest ih =>
    rw [List.cons_append, List.takeWhile_cons, List.takeWhile_cons]
    rw [List.takeWhile_cons] at ends
    split
    · rename_i passed
      rw [if_pos passed, List.length_cons, List.length_cons] at ends
      rw [ih (by omega)]
    · rfl

/-- Alike tokens have as many terminators in front. -/
theorem terminators_alike {left right : List Token}
    (alike : List.Forall₂ Token.Alike left right) :
    (right.takeWhile Token.isTerminator).length = (left.takeWhile Token.isTerminator).length := by
  induction alike with
  | nil => rfl
  | cons first _ ih =>
    rw [List.takeWhile_cons, List.takeWhile_cons, first.isTerminator_eq]
    split
    · rw [List.length_cons, List.length_cons, ih]
    · rfl

/-- Names in front end before the tokens do. -/
theorem nameRun_le (tokens : List Token) : (nameRun tokens).2 ≤ tokens.length := by
  fun_induction nameRun tokens with
  | case1 => exact Nat.le_refl _
  | case2 token named => exact Nat.le_refl _
  | case3 token named comma more separated names count run ih =>
    rw [run] at ih
    simp only [List.length_cons] at ih ⊢
    omega
  | case4 token named comma more separated =>
    simp only [List.length_cons]
    omega
  | case5 token rest named => exact Nat.zero_le _

/-- Tokens behind names that end do not change them. -/
theorem nameRun_append (tokens more : List Token) (ends : (nameRun tokens).2 < tokens.length) :
    nameRun (tokens ++ more) = nameRun tokens := by
  fun_induction nameRun tokens with
  | case1 => simp at ends
  | case2 token named => simp at ends
  | case3 token named comma rest separated names count run ih =>
    rw [run] at ih
    simp only [List.length_cons] at ih ends
    have tail := ih (by omega)
    simp only [List.cons_append, nameRun, named, separated, if_true, tail]
  | case4 token named comma rest separated =>
    simp only [List.cons_append, nameRun, named, if_true]
    rw [if_neg separated]
  | case5 token rest named =>
    rw [List.cons_append, nameRun.eq_def]
    exact if_neg named

/-- The names stand at one place of two lists, among the first `count`. -/
def StandTogether (count : Nat) (left right : List Token) (token image : Token) : Prop :=
  token.kind = .identifier ∧ ∃ place < count, left[place]? = some token ∧ right[place]? = some image

/-- What stands together in the tails of two lists does so in the lists. -/
theorem StandTogether.behind {count : Nat} {left right : List Token} {token image : Token}
    (together : StandTogether count left right token image) (first second : Token) :
    StandTogether (count + 1) (first :: left) (second :: right) token image := by
  obtain ⟨named, place, inside, stands, stands'⟩ := together
  exact ⟨named, place + 1, by omega, stands, stands'⟩

/-- Names in front of alike tokens stand at the same places. -/
theorem nameRun_alike {left right : List Token} (alike : List.Forall₂ Token.Alike left right) :
    List.Forall₂ (StandTogether (nameRun left).2 left right) (nameRun left).1 (nameRun right).1 ∧
      (nameRun right).2 = (nameRun left).2 := by
  fun_induction nameRun left generalizing right with
  | case1 =>
    cases alike
    exact ⟨.nil, rfl⟩
  | case2 token named =>
    obtain _ | ⟨first, tail⟩ := alike
    cases tail
    have isName := eq_of_beq named
    rw [← first.kind] at named
    simp only [nameRun, named, if_true, and_true]
    exact .cons ⟨isName, 0, by omega, rfl, rfl⟩ .nil
  | case3 token named comma more separated names count run ih =>
    obtain _ | ⟨first, tail⟩ := alike
    obtain _ | ⟨second, tail⟩ := tail
    have isName := eq_of_beq named
    rw [← first.kind] at named
    rw [← second.is_eq] at separated
    obtain ⟨following, same⟩ := ih tail
    rw [run] at following same
    simp only [nameRun, named, separated, if_true]
    refine ⟨.cons ⟨isName, 0, by omega, rfl, rfl⟩ (following.imp ?_), by rw [same]⟩
    intro token image together
    exact (together.behind _ _).behind _ _
  | case4 token named comma more separated =>
    obtain _ | ⟨first, tail⟩ := alike
    obtain _ | ⟨second, tail⟩ := tail
    have isName := eq_of_beq named
    rw [← first.kind] at named
    rw [← second.is_eq] at separated
    simp only [nameRun, named, if_true, if_neg separated, and_true]
    exact .cons ⟨isName, 0, by omega, rfl, rfl⟩ .nil
  | case5 token rest named =>
    obtain _ | ⟨first, tail⟩ := alike
    rw [← first.kind] at named
    rw [nameRun.eq_def]
    simp only [if_neg named, and_true]
    exact .nil

/-- Names behind commas end before the tokens do. -/
theorem furtherNames_le (tokens : List Token) : (furtherNames tokens).2 ≤ tokens.length := by
  fun_induction furtherNames tokens with
  | case1 => exact Nat.le_refl _
  | case2 comma separated => exact Nat.le_refl _
  | case3 comma separated token more named names count run ih =>
    rw [run] at ih
    simp only [List.length_cons] at ih ⊢
    omega
  | case4 comma separated token more named names count run ih =>
    rw [run] at ih
    simp only [List.length_cons] at ih ⊢
    omega
  | case5 comma rest separated => exact Nat.zero_le _

/-- Tokens behind names that end do not change them. -/
theorem furtherNames_append (tokens more : List Token)
    (ends : (furtherNames tokens).2 < tokens.length) :
    furtherNames (tokens ++ more) = furtherNames tokens := by
  fun_induction furtherNames tokens with
  | case1 => simp at ends
  | case2 comma separated => simp at ends
  | case3 comma separated token rest named names count run ih =>
    rw [run] at ih
    simp only [List.length_cons] at ih ends
    have tail := ih (by omega)
    simp only [List.cons_append, furtherNames, separated, named, if_true, tail]
  | case4 comma separated token rest named names count run ih =>
    rw [run] at ih
    simp only [List.length_cons] at ih ends
    have tail := ih (by omega)
    rw [List.cons_append] at tail
    rw [List.cons_append, List.cons_append, furtherNames.eq_def]
    simp only [separated, if_true, if_neg named, tail]
  | case5 comma rest separated =>
    rw [List.cons_append, furtherNames.eq_def]
    exact if_neg separated

/-- Names behind commas in front of alike tokens stand at the same places. -/
theorem furtherNames_alike {left right : List Token}
    (alike : List.Forall₂ Token.Alike left right) :
    List.Forall₂ (StandTogether (furtherNames left).2 left right) (furtherNames left).1
        (furtherNames right).1 ∧
      (furtherNames right).2 = (furtherNames left).2 := by
  fun_induction furtherNames left generalizing right with
  | case1 =>
    cases alike
    exact ⟨.nil, rfl⟩
  | case2 comma separated =>
    obtain _ | ⟨first, tail⟩ := alike
    cases tail
    rw [← first.is_eq] at separated
    simp only [furtherNames, separated, if_true, and_true]
    exact .nil
  | case3 comma separated token more named names count run ih =>
    obtain _ | ⟨first, tail⟩ := alike
    obtain _ | ⟨second, tail⟩ := tail
    rw [← first.is_eq] at separated
    have isName := eq_of_beq named
    rw [← second.kind] at named
    obtain ⟨following, same⟩ := ih tail
    rw [run] at following same
    simp only [furtherNames, separated, named, if_true]
    refine ⟨.cons ⟨isName, 1, by omega, rfl, rfl⟩ (following.imp ?_), by rw [same]⟩
    intro token image together
    exact (together.behind _ _).behind _ _
  | case4 comma separated token more named names count run ih =>
    obtain _ | ⟨first, tail⟩ := alike
    obtain _ | ⟨second, tail⟩ := tail
    rw [← first.is_eq] at separated
    rw [← second.kind] at named
    obtain ⟨following, same⟩ := ih (.cons second tail)
    rw [run] at following same
    rw [furtherNames.eq_def]
    simp only [separated, if_true, if_neg named]
    refine ⟨following.imp ?_, by rw [same]⟩
    intro token image together
    exact together.behind _ _
  | case5 comma rest separated =>
    obtain _ | ⟨first, tail⟩ := alike
    rw [← first.is_eq] at separated
    rw [furtherNames.eq_def]
    simp only [if_neg separated, and_true]
    exact .nil

namespace Cursor

/-- A predicate that moving on keeps. -/
class Stable (holds : Cursor → Prop) : Prop where
  /-- It holds behind the next token. -/
  advance : ∀ cursor, holds cursor → holds cursor.advance

namespace Stable

/-- A stable predicate holds behind some tokens. -/
theorem advanceBy {holds : Cursor → Prop} [Stable holds] {cursor : Cursor} (here : holds cursor)
    (count : Nat) : holds (cursor.advanceBy count) := by
  induction count generalizing cursor with
  | zero => exact here
  | succ count ih => exact ih (Stable.advance cursor here)

/-- A stable predicate holds where a computation stops. -/
theorem run {α : Type} {holds : Cursor → Prop} [Stable holds] {cursor : Cursor}
    (here : holds cursor) (parse : Parse α) : holds (parse.run cursor).2 := by
  obtain ⟨count, stops⟩ := parse.advances cursor
  rw [stops]
  exact advanceBy here count

end Stable

end Cursor

namespace Parse

/-- The test tells that a name comes next. -/
def TellsName (test : Parse Bool) : Prop :=
  ∃ answer, test = query answer ∧
    ∀ place, answer place = true → (place.peekAt 0).kind = .identifier

/-- A token of the kind of names is one. -/
theorem tellsName_isKind : TellsName (isKind .identifier) :=
  ⟨_, rfl, fun _ yes => eq_of_beq yes⟩

/-- Where a method follows, its name comes next. -/
theorem tellsName_methodFollows : TellsName methodFollows :=
  ⟨_, rfl, fun _ yes => eq_of_beq (Bool.and_eq_true_iff.mp yes).1⟩

/-- Where a field is named, its name comes next. -/
theorem tellsName_fieldIsNamed : TellsName fieldIsNamed :=
  ⟨_, rfl, fun _ yes => eq_of_beq (Bool.and_eq_true_iff.mp yes).1⟩

/-- Where a parameter is named, its name comes next. -/
theorem tellsName_paramIsNamed : TellsName paramIsNamed := by
  refine ⟨_, rfl, ?_⟩
  intro place yes
  by_contra other
  rw [if_pos (bne_iff_ne.mpr other)] at yes
  exact absurd yes (by decide)

end Parse

/-!
## Room for calls

The parser's functions are bounded in the depth of their calls. A bound leaves room where it has
sixteen calls for each token ahead and a few more. The few more are the rank of a function, the
longest chain of calls that it can start without taking a token; behind a token that was taken,
there is room for every function. Loops take a token in each round, if only at its end.
-/

namespace Cursor

/-- The depth leaves room for calls from the place on: sixteen for each token and `rank` more. -/
structure Fits (depth rank : Nat) (cursor : Cursor) : Prop where
  /-- The token behind the last one marks the end. -/
  finishes : cursor.finish.kind = .finish
  /-- There is room. -/
  room : 16 * cursor.ahead.length + rank ≤ depth

/-- There is room, and a token is ahead. -/
structure Inside (depth rank : Nat) (cursor : Cursor) : Prop extends Fits depth rank cursor where
  /-- A token is ahead. -/
  goesOn : cursor.ahead ≠ []

/-- There is room, and a token is ahead or was taken since `before`. -/
structure Since (before depth rank : Nat) (cursor : Cursor) : Prop where
  /-- No token was given back. -/
  behind : before ≤ cursor.taken
  /-- Until a token is taken, one is ahead. -/
  waiting : cursor.taken = before → cursor.Inside depth rank
  /-- Once a token was taken, there is room for every function. -/
  moved : cursor.taken ≠ before → cursor.Fits depth 9

variable {before depth rank : Nat} {cursor : Cursor}

/-- There is room for less. -/
theorem Fits.low {lower : Nat} (fits : cursor.Fits depth rank) (less : lower ≤ rank) :
    cursor.Fits depth lower :=
  ⟨fits.finishes, Nat.le_trans (Nat.add_le_add_left less _) fits.room⟩

/-- At the end the token that marks it comes next. -/
theorem Fits.kind_of_nil (fits : cursor.Fits depth rank) (done : cursor.ahead = []) :
    (cursor.peekAt 0).kind = .finish := by
  unfold peekAt
  rw [done]
  exact fits.finishes

/-- Behind a token there is room for every function. -/
theorem Inside.advance (inside : cursor.Inside depth rank) : cursor.advance.Fits depth 9 := by
  refine ⟨by rw [finish_advance]; exact inside.finishes, ?_⟩
  have room := inside.room
  have some := List.length_pos_of_ne_nil inside.goesOn
  rw [ahead_advance, List.length_tail]
  omega

/-- Room stays. -/
instance stable_fits : Stable (Fits depth rank) where
  advance cursor fits := by
    refine ⟨by rw [finish_advance]; exact fits.finishes, ?_⟩
    have room := fits.room
    rw [ahead_advance, List.length_tail]
    omega

/-- A token that is taken counts. -/
theorem taken_advance_of_ne_nil (goesOn : cursor.ahead ≠ []) :
    cursor.advance.taken = cursor.taken + 1 := by
  obtain ⟨token, rest, next⟩ := List.exists_cons_of_ne_nil goesOn
  rw [advance_of_cons next]

/-- Tokens are not given back. -/
instance stable_since : Stable (Since before depth rank) where
  advance cursor since := by
    by_cases here : cursor.taken = before
    · have inside := since.waiting here
      have counted := taken_advance_of_ne_nil inside.goesOn
      exact ⟨by omega, fun same => absurd same (by omega), fun _ => inside.advance⟩
    · have fits := since.moved here
      have grows := taken_le_advanceBy 1 cursor
      have behind := since.behind
      change cursor.taken ≤ cursor.advance.taken at grows
      exact ⟨by omega, fun same => absurd same (by omega), fun _ => Stable.advance cursor fits⟩

/-- There is room wherever a loop stands. -/
theorem Since.fits (since : cursor.Since before depth rank) (low : rank ≤ 9) :
    cursor.Fits depth rank := by
  by_cases here : cursor.taken = before
  · exact (since.waiting here).toFits
  · exact (since.moved here).low low

end Cursor

namespace Parse

variable {α β γ : Type}

/-! ## Runs of small computations -/

/-- Two computations in a row run one after the other, from where the first one stops. -/
theorem run_bind (parse : Parse α) (following : α → Parse β) (cursor : Cursor) :
    (parse >>= following).run cursor =
      (following (parse.run cursor).1).run (parse.run cursor).2 := rfl

/-- A keyword or mark that is taken if it comes next is taken behind a test. -/
theorem eat_bind (text : String) (following : Bool → Parse α) :
    (eat text >>= following) =
      (is text >>= fun yes =>
        if yes = true then take >>= fun _ => following true else following false) := by
  have each : ∀ yes : Bool,
      ((if yes = true then (do let _ ← take; return true) else return false : Parse Bool) >>=
        following) =
        if yes = true then take >>= fun _ => following true else following false
    | true => rfl
    | false => rfl
  exact congrArg (is text >>= ·) (funext each)

/-- A keyword or mark is taken if it comes next. -/
theorem run_eat (text : String) (cursor : Cursor) :
    (eat text).run cursor =
      if (cursor.peekAt 0).is text = true then (true, cursor.advance) else (false, cursor) := by
  unfold eat
  rw [run_bind]
  change (if (cursor.peekAt 0).is text = true then _ else _ : Parse Bool).run cursor = _
  split
  · rfl
  · rfl

end Parse

end GoRefactor
