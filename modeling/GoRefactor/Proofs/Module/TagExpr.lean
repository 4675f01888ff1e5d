import GoRefactor.Module.BuildConstraint
import Mathlib.Data.List.Basic

/-!
# Expressions over build tags

Symbols write an expression when negation binds its operand first, then conjunctions and then
disjunctions are put together, and parentheses stand at least where that order needs them. Reading
symbols gives an expression that they write in front of what is left over, and reads as far as any
writing goes. Symbols that write several expressions (a conjunction of three parts can be grouped
in two ways) give one of the same truth.
-/

namespace GoRefactor

namespace TagExpr

/-- The truth of an expression where exactly the given tags are true. -/
def Holds (tags : List String) : TagExpr → Prop
  | .tag name => String.ofList name ∈ tags
  | .not operand => ¬operand.Holds tags
  | .and left right => left.Holds tags ∧ right.Holds tags
  | .or left right => left.Holds tags ∨ right.Holds tags

/-- The tags of an expression. -/
def names : TagExpr → List (List Char)
  | .tag name => [name]
  | .not operand => operand.names
  | .and left right => left.names ++ right.names
  | .or left right => left.names ++ right.names

/-- An expression evaluates to true exactly if it holds of the tags. -/
theorem eval_iff_holds (tags : List String) (expr : TagExpr) :
    expr.eval (tags.map String.toList) = true ↔ expr.Holds tags := by
  induction expr with
  | tag name =>
    rw [eval, Holds, List.contains_iff_mem, List.mem_map]
    constructor
    · rintro ⟨tag, member, rfl⟩
      rwa [String.ofList_toList]
    · intro member
      exact ⟨_, member, String.toList_ofList⟩
  | not operand ih => rw [eval, Holds, ← ih, Bool.not_eq_true', Bool.not_eq_true]
  | and left right ihLeft ihRight => rw [eval, Holds, Bool.and_eq_true, ihLeft, ihRight]
  | or left right ihLeft ihRight => rw [eval, Holds, Bool.or_eq_true, ihLeft, ihRight]

/-- The expressions have the same truth for all tags. -/
def Alike (left right : TagExpr) : Prop := ∀ tags, left.Holds tags ↔ right.Holds tags

/-! ## Writing -/

/-- What may be written without parentheses around it. -/
inductive Binding where
  /-- Operands of a negation. -/
  | operand
  /-- Parts of a conjunction. -/
  | conjunction
  /-- Whole expressions. -/
  | disjunction

/-- The symbols write the expression, with parentheses at least where they are needed. -/
inductive Writes : Binding → TagExpr → List TagToken → Prop where
  | tag (name : List Char) : Writes .operand (.tag name) [.word name]
  | not {operand : TagExpr} {symbols : List TagToken} (inner : Writes .operand operand symbols) :
      Writes .operand (.not operand) (.bang :: symbols)
  | group {expr : TagExpr} {symbols : List TagToken} (inner : Writes .disjunction expr symbols) :
      Writes .operand expr (.opening :: (symbols ++ [.closing]))
  | ofOperand {expr : TagExpr} {symbols : List TagToken} (inner : Writes .operand expr symbols) :
      Writes .conjunction expr symbols
  | and {left right : TagExpr} {front back : List TagToken}
      (first : Writes .conjunction left front) (second : Writes .conjunction right back) :
      Writes .conjunction (.and left right) (front ++ .both :: back)
  | ofConjunction {expr : TagExpr} {symbols : List TagToken}
      (inner : Writes .conjunction expr symbols) : Writes .disjunction expr symbols
  | or {left right : TagExpr} {front back : List TagToken}
      (first : Writes .disjunction left front) (second : Writes .disjunction right back) :
      Writes .disjunction (.or left right) (front ++ .either :: back)

/-- No expression is written with no symbols at all. -/
theorem Writes.ne_nil {binding : Binding} {expr : TagExpr} {symbols : List TagToken}
    (written : Writes binding expr symbols) : symbols ≠ [] := by
  induction written with
  | tag name => exact List.cons_ne_nil _ _
  | not _ _ => exact List.cons_ne_nil _ _
  | group _ _ => exact List.cons_ne_nil _ _
  | ofOperand _ ih => exact ih
  | and _ _ _ _ =>
    exact fun none => absurd (List.append_eq_nil_iff.mp none).2 (List.cons_ne_nil _ _)
  | ofConjunction _ ih => exact ih
  | or _ _ _ _ => exact fun none => absurd (List.append_eq_nil_iff.mp none).2 (List.cons_ne_nil _ _)

/-- The words that are written are the tags. -/
theorem Writes.word_mem_iff {binding : Binding} {expr : TagExpr} {symbols : List TagToken}
    (written : Writes binding expr symbols) (name : List Char) :
    .word name ∈ symbols ↔ name ∈ expr.names := by
  induction written with
  | tag other => simp [names]
  | not _ ih => simp [names, ih]
  | group _ ih => simp [ih]
  | ofOperand _ ih => exact ih
  | and _ _ ih ih' => simp [names, ih, ih']
  | ofConjunction _ ih => exact ih
  | or _ _ ih ih' => simp [names, ih, ih']

/-! ## What is read is written -/

mutual

/-- What is read as a disjunction is written in front, and no operator comes next. -/
theorem writes_of_readOr : ∀ {fuel : Nat} {symbols rest : List TagToken} {expr : TagExpr},
    readOr fuel symbols = some (expr, rest) →
      ∃ written, symbols = written ++ rest ∧ Writes .disjunction expr written ∧
        rest.head? ≠ some .both ∧ rest.head? ≠ some .either
  | 0, _, _, _, given => by
    rw [readOr] at given
    cases given
  | fuel + 1, symbols, rest, expr, given => by
    rw [readOr] at given
    obtain ⟨⟨left, between⟩, first, further⟩ := Option.bind_eq_some_iff.mp given
    obtain ⟨front, rfl, writtenFirst, stops⟩ := writes_of_readAnd first
    obtain ⟨back, rfl, written, ends⟩ :=
      writes_of_readOrTail (.ofConjunction writtenFirst) stops further
    exact ⟨front ++ back, (List.append_assoc _ _ _).symm, written, ends⟩

/-- What is read as further operands of a disjunction is written behind the first ones. -/
theorem writes_of_readOrTail : ∀ {fuel : Nat} {symbols rest before : List TagToken}
    {left expr : TagExpr}, Writes .disjunction left before → symbols.head? ≠ some .both →
    readOrTail fuel left symbols = some (expr, rest) →
      ∃ written, symbols = written ++ rest ∧ Writes .disjunction expr (before ++ written) ∧
        rest.head? ≠ some .both ∧ rest.head? ≠ some .either
  | 0, _, _, _, _, _, _, _, given => by
    rw [readOrTail] at given
    cases given
  | fuel + 1, symbols, rest, before, left, expr, writtenBefore, stops, given => by
    unfold readOrTail at given
    split at given
    · rename_i following
      obtain ⟨⟨right, between⟩, second, further⟩ := Option.bind_eq_some_iff.mp given
      obtain ⟨middle, rfl, writtenSecond, stops'⟩ := writes_of_readAnd second
      obtain ⟨back, rfl, written, ends⟩ :=
        writes_of_readOrTail (.or writtenBefore (.ofConjunction writtenSecond)) stops' further
      refine ⟨.either :: (middle ++ back), by simp, ?_, ends⟩
      simpa using written
    · rename_i other
      cases given
      refine ⟨[], rfl, (List.append_nil before).symm ▸ writtenBefore, stops, ?_⟩
      intro first
      obtain ⟨tail, same⟩ := List.head?_eq_some_iff.mp first
      exact other tail same

/-- What is read as a conjunction is written in front, and no conjunction goes on. -/
theorem writes_of_readAnd : ∀ {fuel : Nat} {symbols rest : List TagToken} {expr : TagExpr},
    readAnd fuel symbols = some (expr, rest) →
      ∃ written, symbols = written ++ rest ∧ Writes .conjunction expr written ∧
        rest.head? ≠ some .both
  | 0, _, _, _, given => by
    rw [readAnd] at given
    cases given
  | fuel + 1, symbols, rest, expr, given => by
    rw [readAnd] at given
    obtain ⟨⟨left, between⟩, first, further⟩ := Option.bind_eq_some_iff.mp given
    obtain ⟨front, rfl, writtenFirst⟩ := writes_of_readUnary first
    obtain ⟨back, rfl, written, ends⟩ := writes_of_readAndTail (.ofOperand writtenFirst) further
    exact ⟨front ++ back, (List.append_assoc _ _ _).symm, written, ends⟩

/-- What is read as further operands of a conjunction is written behind the first ones. -/
theorem writes_of_readAndTail : ∀ {fuel : Nat} {symbols rest before : List TagToken}
    {left expr : TagExpr}, Writes .conjunction left before →
    readAndTail fuel left symbols = some (expr, rest) →
      ∃ written, symbols = written ++ rest ∧ Writes .conjunction expr (before ++ written) ∧
        rest.head? ≠ some .both
  | 0, _, _, _, _, _, _, given => by
    rw [readAndTail] at given
    cases given
  | fuel + 1, symbols, rest, before, left, expr, writtenBefore, given => by
    unfold readAndTail at given
    split at given
    · rename_i following
      obtain ⟨⟨right, between⟩, second, further⟩ := Option.bind_eq_some_iff.mp given
      obtain ⟨middle, rfl, writtenSecond⟩ := writes_of_readUnary second
      obtain ⟨back, rfl, written, ends⟩ :=
        writes_of_readAndTail (.and writtenBefore (.ofOperand writtenSecond)) further
      refine ⟨.both :: (middle ++ back), by simp, ?_, ends⟩
      simpa using written
    · rename_i other
      cases given
      refine ⟨[], rfl, (List.append_nil before).symm ▸ writtenBefore, ?_⟩
      intro first
      obtain ⟨tail, same⟩ := List.head?_eq_some_iff.mp first
      exact other tail same

/-- What is read as an operand is written in front. -/
theorem writes_of_readUnary : ∀ {fuel : Nat} {symbols rest : List TagToken} {expr : TagExpr},
    readUnary fuel symbols = some (expr, rest) →
      ∃ written, symbols = written ++ rest ∧ Writes .operand expr written
  | 0, _, _, _, given => by
    rw [readUnary] at given
    cases given
  | fuel + 1, symbols, rest, expr, given => by
    unfold readUnary at given
    split at given
    · rename_i name following
      cases given
      exact ⟨[.word name], rfl, .tag name⟩
    · obtain ⟨⟨operand, after⟩, inner, returned⟩ := Option.bind_eq_some_iff.mp given
      cases returned
      obtain ⟨written, rfl, writtenOperand⟩ := writes_of_readUnary inner
      exact ⟨.bang :: written, rfl, .not writtenOperand⟩
    · obtain ⟨⟨group, after⟩, inner, closed⟩ := Option.bind_eq_some_iff.mp given
      obtain ⟨written, rfl, writtenGroup, -⟩ := writes_of_readOr inner
      dsimp only at closed
      split at closed
      · cases closed
        exact ⟨.opening :: (written ++ [.closing]), by simp, .group writtenGroup⟩
      · cases closed
    · cases given

end

/-- Behind something that is written in front, fewer symbols are left. -/
theorem Writes.length_lt {binding : Binding} {expr : TagExpr} {written : List TagToken}
    (writes : Writes binding expr written) (rest : List TagToken) :
    rest.length < (written ++ rest).length := by
  have some := List.length_pos_iff.mpr writes.ne_nil
  rw [List.length_append]
  omega

/-! ## Fuel -/

mutual

/-- More fuel than is enough for the symbols changes nothing for disjunctions. -/
theorem readOr_of_le : ∀ {fuel fuel' : Nat} {symbols : List TagToken},
    3 * symbols.length + 3 ≤ fuel → fuel ≤ fuel' → readOr fuel' symbols = readOr fuel symbols
  | fuel + 1, fuel' + 1, symbols, enough, more => by
    have less := Nat.le_of_succ_le_succ more
    rw [readOr, readOr, readAnd_of_le (Nat.le_of_succ_le_succ enough) less]
    refine Option.bind_congr fun ⟨left, rest⟩ first => ?_
    obtain ⟨written, rfl, writes, -⟩ := writes_of_readAnd first
    have shorter := writes.length_lt rest
    exact readOrTail_of_le (by omega) less

/-- More fuel than is enough for the symbols changes nothing for further disjuncts. -/
theorem readOrTail_of_le : ∀ {fuel fuel' : Nat} {left : TagExpr} {symbols : List TagToken},
    3 * symbols.length + 1 ≤ fuel → fuel ≤ fuel' →
      readOrTail fuel' left symbols = readOrTail fuel left symbols
  | fuel + 1, fuel' + 1, left, symbols, enough, more => by
    have less := Nat.le_of_succ_le_succ more
    unfold readOrTail
    split
    · rename_i following
      rw [List.length_cons] at enough
      rw [readAnd_of_le (by omega) less]
      refine Option.bind_congr fun ⟨right, rest⟩ second => ?_
      obtain ⟨written, rfl, writes, -⟩ := writes_of_readAnd second
      have shorter := writes.length_lt rest
      exact readOrTail_of_le (by omega) less
    · rfl

/-- More fuel than is enough for the symbols changes nothing for conjunctions. -/
theorem readAnd_of_le : ∀ {fuel fuel' : Nat} {symbols : List TagToken},
    3 * symbols.length + 2 ≤ fuel → fuel ≤ fuel' → readAnd fuel' symbols = readAnd fuel symbols
  | fuel + 1, fuel' + 1, symbols, enough, more => by
    have less := Nat.le_of_succ_le_succ more
    rw [readAnd, readAnd, readUnary_of_le (Nat.le_of_succ_le_succ enough) less]
    refine Option.bind_congr fun ⟨left, rest⟩ first => ?_
    obtain ⟨written, rfl, writes⟩ := writes_of_readUnary first
    have shorter := writes.length_lt rest
    exact readAndTail_of_le (by omega) less

/-- More fuel than is enough for the symbols changes nothing for further conjuncts. -/
theorem readAndTail_of_le : ∀ {fuel fuel' : Nat} {left : TagExpr} {symbols : List TagToken},
    3 * symbols.length + 1 ≤ fuel → fuel ≤ fuel' →
      readAndTail fuel' left symbols = readAndTail fuel left symbols
  | fuel + 1, fuel' + 1, left, symbols, enough, more => by
    have less := Nat.le_of_succ_le_succ more
    unfold readAndTail
    split
    · rename_i following
      rw [List.length_cons] at enough
      rw [readUnary_of_le (by omega) less]
      refine Option.bind_congr fun ⟨right, rest⟩ second => ?_
      obtain ⟨written, rfl, writes⟩ := writes_of_readUnary second
      have shorter := writes.length_lt rest
      exact readAndTail_of_le (by omega) less
    · rfl

/-- More fuel than is enough for the symbols changes nothing for operands. -/
theorem readUnary_of_le : ∀ {fuel fuel' : Nat} {symbols : List TagToken},
    3 * symbols.length + 1 ≤ fuel → fuel ≤ fuel' →
      readUnary fuel' symbols = readUnary fuel symbols
  | fuel + 1, fuel' + 1, symbols, enough, more => by
    have less := Nat.le_of_succ_le_succ more
    unfold readUnary
    split
    · rfl
    · rw [List.length_cons] at enough
      rw [readUnary_of_le (by omega) less]
    · rw [List.length_cons] at enough
      rw [readOr_of_le (by omega) less]
    · rfl

end

/-- The operand in front of the symbols. -/
def operand? (symbols : List TagToken) : Option (TagExpr × List TagToken) :=
  readUnary (3 * symbols.length + 1) symbols

/-- The conjunction in front of the symbols. -/
def conjunction? (symbols : List TagToken) : Option (TagExpr × List TagToken) :=
  readAnd (3 * symbols.length + 2) symbols

/-- The conjunction that further operands complete. -/
def conjoined? (left : TagExpr) (symbols : List TagToken) : Option (TagExpr × List TagToken) :=
  readAndTail (3 * symbols.length + 1) left symbols

/-- The disjunction in front of the symbols. -/
def disjunction? (symbols : List TagToken) : Option (TagExpr × List TagToken) :=
  readOr (3 * symbols.length + 3) symbols

/-- The disjunction that further operands complete. -/
def disjoined? (left : TagExpr) (symbols : List TagToken) : Option (TagExpr × List TagToken) :=
  readOrTail (3 * symbols.length + 1) left symbols

/-- Reading a constraint is reading a disjunction. -/
theorem read?_eq (symbols : List TagToken) :
    read? symbols = (disjunction? symbols).map Prod.fst := by
  rw [read?, disjunction?, readOr_of_le (Nat.le_refl _) (by omega)]

/-- A tag is an operand. -/
theorem operand?_word (name : List Char) (rest : List TagToken) :
    operand? (.word name :: rest) = some (.tag name, rest) := rfl

/-- A negated operand is an operand. -/
theorem operand?_bang {symbols rest : List TagToken} {operand : TagExpr}
    (inner : operand? symbols = some (operand, rest)) :
    operand? (.bang :: symbols) = some (.not operand, rest) := by
  unfold operand? at inner ⊢
  rw [List.length_cons, readUnary, readUnary_of_le (Nat.le_refl _) (by omega), inner]
  rfl

/-- An expression in parentheses is an operand. -/
theorem operand?_opening {symbols rest : List TagToken} {expr : TagExpr}
    (inner : disjunction? symbols = some (expr, .closing :: rest)) :
    operand? (.opening :: symbols) = some (expr, rest) := by
  unfold operand?
  unfold disjunction? at inner
  rw [List.length_cons, readUnary, readOr_of_le (Nat.le_refl _) (by omega), inner]
  rfl

/-- Behind its first operand a conjunction goes on with further ones. -/
theorem conjunction?_eq {symbols rest : List TagToken} {left : TagExpr}
    (first : operand? symbols = some (left, rest)) :
    conjunction? symbols = conjoined? left rest := by
  unfold operand? at first
  obtain ⟨written, same, writes⟩ := writes_of_readUnary first
  have shorter := same ▸ writes.length_lt rest
  rw [conjunction?, readAnd, first]
  exact readAndTail_of_le (Nat.le_refl _) (by omega)

/-- An operator adds an operand to a conjunction. -/
theorem conjoined?_both {symbols rest : List TagToken} {right : TagExpr} (left : TagExpr)
    (second : operand? symbols = some (right, rest)) :
    conjoined? left (.both :: symbols) = conjoined? (.and left right) rest := by
  unfold operand? at second
  obtain ⟨written, same, writes⟩ := writes_of_readUnary second
  have shorter := same ▸ writes.length_lt rest
  rw [conjoined?, List.length_cons, readAndTail, readUnary_of_le (Nat.le_refl _) (by omega), second]
  exact readAndTail_of_le (Nat.le_refl _) (by omega)

/-- Without an operator a conjunction is complete. -/
theorem conjoined?_of_ne {symbols : List TagToken} (left : TagExpr)
    (ends : symbols.head? ≠ some .both) : conjoined? left symbols = some (left, symbols) := by
  unfold conjoined? readAndTail
  split
  · exact absurd rfl ends
  · rfl

/-- Behind its first operand a disjunction goes on with further ones. -/
theorem disjunction?_eq {symbols rest : List TagToken} {left : TagExpr}
    (first : conjunction? symbols = some (left, rest)) :
    disjunction? symbols = disjoined? left rest := by
  unfold conjunction? at first
  obtain ⟨written, same, writes, -⟩ := writes_of_readAnd first
  have shorter := same ▸ writes.length_lt rest
  rw [disjunction?, readOr, first]
  exact readOrTail_of_le (Nat.le_refl _) (by omega)

/-- An operator adds an operand to a disjunction. -/
theorem disjoined?_either {symbols rest : List TagToken} {right : TagExpr} (left : TagExpr)
    (second : conjunction? symbols = some (right, rest)) :
    disjoined? left (.either :: symbols) = disjoined? (.or left right) rest := by
  unfold conjunction? at second
  obtain ⟨written, same, writes, -⟩ := writes_of_readAnd second
  have shorter := same ▸ writes.length_lt rest
  rw [disjoined?, List.length_cons, readOrTail, readAnd_of_le (Nat.le_refl _) (by omega), second]
  exact readOrTail_of_le (Nat.le_refl _) (by omega)

/-- Without an operator a disjunction is complete. -/
theorem disjoined?_of_ne {symbols : List TagToken} (left : TagExpr)
    (ends : symbols.head? ≠ some .either) : disjoined? left symbols = some (left, symbols) := by
  unfold disjoined? readOrTail
  split
  · exact absurd rfl ends
  · rfl

/-! ## What is written is read -/

/-- The symbols are read as far as they go, as an expression of the same truth: alone, or as a
further operand. -/
def Reads : Binding → TagExpr → List TagToken → Prop
  | .operand, expr, symbols => ∀ rest, ∃ found : TagExpr, found.Alike expr ∧
      operand? (symbols ++ rest) = some (found, rest)
  | .conjunction, expr, symbols =>
    (∀ rest, ∃ found : TagExpr, found.Alike expr ∧
      conjunction? (symbols ++ rest) = conjoined? found rest) ∧
    ∀ left rest, ∃ found : TagExpr, found.Alike (.and left expr) ∧
      conjoined? left (.both :: (symbols ++ rest)) = conjoined? found rest
  | .disjunction, expr, symbols =>
    (∀ rest, rest.head? ≠ some .both → ∃ found : TagExpr, found.Alike expr ∧
      disjunction? (symbols ++ rest) = disjoined? found rest) ∧
    ∀ left rest, rest.head? ≠ some .both → ∃ found : TagExpr, found.Alike (.or left expr) ∧
      disjoined? left (.either :: (symbols ++ rest)) = disjoined? found rest

/-- Whatever is written is read. -/
theorem Writes.reads {binding : Binding} {expr : TagExpr} {symbols : List TagToken}
    (written : Writes binding expr symbols) : Reads binding expr symbols := by
  -- Operands are read whole; the parts of conjunctions and disjunctions one after the other, by
  -- the readers of further operands, which group to the left however the writer grouped.
  induction written with
  | tag name => exact fun rest => ⟨.tag name, fun _ => Iff.rfl, operand?_word name rest⟩
  | not _ ih =>
    intro rest
    obtain ⟨found, alike, given⟩ := ih rest
    exact ⟨.not found, fun tags => not_congr (alike tags), operand?_bang given⟩
  | @group expr symbols _ ih =>
    intro rest
    obtain ⟨found, alike, given⟩ := ih.1 (.closing :: rest) (by simp)
    refine ⟨found, alike, ?_⟩
    rw [List.cons_append, List.append_assoc, List.singleton_append]
    exact operand?_opening (given.trans (disjoined?_of_ne found (by simp)))
  | ofOperand _ ih =>
    refine ⟨fun rest => ?_, fun left rest => ?_⟩
    · obtain ⟨found, alike, given⟩ := ih rest
      exact ⟨found, alike, conjunction?_eq given⟩
    · obtain ⟨found, alike, given⟩ := ih rest
      exact ⟨.and left found, fun tags => and_congr_right' (alike tags),
        conjoined?_both left given⟩
  | @and left right front back _ _ ih ih' =>
    refine ⟨fun rest => ?_, fun before rest => ?_⟩
    · obtain ⟨found, alike, given⟩ := ih.1 (.both :: (back ++ rest))
      obtain ⟨whole, alike', given'⟩ := ih'.2 found rest
      refine ⟨whole, fun tags => (alike' tags).trans (and_congr_left' (alike tags)), ?_⟩
      rw [List.append_assoc, List.cons_append, given, given']
    · obtain ⟨found, alike, given⟩ := ih.2 before (.both :: (back ++ rest))
      obtain ⟨whole, alike', given'⟩ := ih'.2 found rest
      refine ⟨whole, fun tags => ?_, ?_⟩
      · exact (alike' tags).trans ((and_congr_left' (alike tags)).trans and_assoc)
      · rw [List.append_assoc, List.cons_append, given, given']
  | ofConjunction _ ih =>
    refine ⟨fun rest ends => ?_, fun left rest ends => ?_⟩
    · obtain ⟨found, alike, given⟩ := ih.1 rest
      exact ⟨found, alike, disjunction?_eq (given.trans (conjoined?_of_ne found ends))⟩
    · obtain ⟨found, alike, given⟩ := ih.1 rest
      exact ⟨.or left found, fun tags => or_congr_right (alike tags),
        disjoined?_either left (given.trans (conjoined?_of_ne found ends))⟩
  | @or left right front back _ _ ih ih' =>
    refine ⟨fun rest ends => ?_, fun before rest ends => ?_⟩
    · obtain ⟨found, alike, given⟩ := ih.1 (.either :: (back ++ rest)) (by simp)
      obtain ⟨whole, alike', given'⟩ := ih'.2 found rest ends
      refine ⟨whole, fun tags => (alike' tags).trans (or_congr_left (alike tags)), ?_⟩
      rw [List.append_assoc, List.cons_append, given, given']
    · obtain ⟨found, alike, given⟩ := ih.2 before (.either :: (back ++ rest)) (by simp)
      obtain ⟨whole, alike', given'⟩ := ih'.2 found rest ends
      refine ⟨whole, fun tags => ?_, ?_⟩
      · exact (alike' tags).trans ((or_congr_left (alike tags)).trans or_assoc)
      · rw [List.append_assoc, List.cons_append, given, given']

/-- The symbols in front write the expression, and it does not go on behind them. -/
structure Leads (expr : TagExpr) (written rest : List TagToken) : Prop where
  /-- The symbols write the expression. -/
  writes : Writes .disjunction expr written
  /-- No conjunction goes on. -/
  notBoth : rest.head? ≠ some .both
  /-- No disjunction goes on. -/
  notEither : rest.head? ≠ some .either

/-- **An expression in front of symbols is read as one of the same truth**, and nothing else. -/
theorem Leads.disjunction?_eq {expr : TagExpr} {written rest : List TagToken}
    (leads : expr.Leads written rest) :
    ∃ found : TagExpr, found.Alike expr ∧ disjunction? (written ++ rest) = some (found, rest) := by
  obtain ⟨found, alike, given⟩ := leads.writes.reads.1 rest leads.notBoth
  exact ⟨found, alike, given.trans (disjoined?_of_ne found leads.notEither)⟩

/-- **What is read of symbols leads them.** -/
theorem leads_of_disjunction? {symbols rest : List TagToken} {expr : TagExpr}
    (given : disjunction? symbols = some (expr, rest)) :
    ∃ written, symbols = written ++ rest ∧ expr.Leads written rest := by
  obtain ⟨written, same, writes, notBoth, notEither⟩ := writes_of_readOr given
  exact ⟨written, same, writes, notBoth, notEither⟩

/-- What leads symbols is told by them, up to its grouping. -/
theorem Leads.unique {expr expr' : TagExpr} {written rest written' rest' : List TagToken}
    (leads : expr.Leads written rest) (leads' : expr'.Leads written' rest')
    (same : written ++ rest = written' ++ rest') :
    written = written' ∧ rest = rest' ∧ expr.Alike expr' := by
  obtain ⟨found, alike, given⟩ := leads.disjunction?_eq
  obtain ⟨found', alike', given'⟩ := leads'.disjunction?_eq
  rw [same, given', Option.some_inj, Prod.mk.injEq] at given
  obtain ⟨rfl, rfl⟩ := given
  exact ⟨List.append_cancel_right same, rfl, fun tags => (alike tags).symm.trans (alike' tags)⟩

end TagExpr

end GoRefactor
