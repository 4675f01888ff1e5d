import GoRefactor.Proofs.Go.Marks
import GoRefactor.Proofs.Go.Token.Joined

/-!
# Declarations one after the other

A declaration that is read completely behind a package clause is read the same way behind other
declarations and in front of more: what it declares is further on in the text, and nothing else
about it changes. So declarations that are joined by line breaks are read one after the other.
-/

namespace GoRefactor

open Lexeme

/-- The declaration further on in the text. -/
def TopDecl.moved (bytes : Nat) (decl : TopDecl) : TopDecl :=
  ((SpanVisitor.moving (· + bytes) fun name _ => name).topDecl decl).run

namespace Cursor

/-- A declaration starts at the place and is read up to the terminators that are left. -/
def Declares (place : Cursor) (decls : List TopDecl) : Prop :=
  (place.peekAt 0).isTerminator = false ∧ place.finish.kind = .finish ∧
    ∃ after, (Parse.topLevel (depthLimit place.ahead.length)).run place = (decls, after) ∧
      after.ahead ≠ [] ∧ ∀ token ∈ after.ahead, token.isTerminator = true

/-- No token ahead, and none that was taken, ends behind the offset. -/
structure EndsBy (bound : Nat) (cursor : Cursor) : Prop where
  /-- The last token taken. -/
  lastEnd : cursor.lastEnd ≤ bound
  /-- Tokens ahead. -/
  ahead : ∀ token ∈ cursor.ahead, token.span.stop ≤ bound

/-- Tokens end where they end. -/
instance stable_endsBy (bound : Nat) : Stable (EndsBy bound) where
  advance cursor ends := by
    cases next : cursor.ahead with
    | nil => rwa [advance_of_nil next]
    | cons token rest =>
      have each := ends.ahead
      rw [next] at each
      obtain ⟨first, others⟩ := List.forall_mem_cons.mp each
      rw [advance_of_cons next]
      refine ⟨?_, others⟩
      simp only
      split
      · exact ends.lastEnd
      · exact first

/-- Tokens are taken from those ahead. -/
theorem total_advanceBy (count : Nat) (cursor : Cursor) :
    (cursor.advanceBy count).taken + (cursor.advanceBy count).ahead.length =
      cursor.taken + cursor.ahead.length := by
  induction count generalizing cursor with
  | zero => rfl
  | succ count ih =>
    rw [advanceBy, ih]
    cases next : cursor.ahead with
    | nil => rw [advance_of_nil next, next]
    | cons token rest =>
      rw [advance_of_cons next, List.length_cons]
      simp only
      omega

/-- Reading takes tokens from those ahead. -/
theorem total_run {α : Type} (parse : Parse α) (cursor : Cursor) :
    (parse.run cursor).2.taken + (parse.run cursor).2.ahead.length =
      cursor.taken + cursor.ahead.length := by
  obtain ⟨count, stops⟩ := parse.advances cursor
  rw [stops]
  exact total_advanceBy count cursor

/-- Where reading stops, tokens that are left are the last ones. -/
theorem ahead_run_suffix {α : Type} (parse : Parse α) (cursor : Cursor) :
    (parse.run cursor).2.ahead <:+ cursor.ahead := by
  obtain ⟨count, stops⟩ := parse.advances cursor
  rw [stops, ahead_advanceBy]
  exact List.drop_suffix count cursor.ahead

/-- Reading keeps the token at the end and the comments. -/
theorem kept_run {α : Type} (parse : Parse α) (cursor : Cursor) :
    (parse.run cursor).2.finish = cursor.finish ∧ (parse.run cursor).2.notes = cursor.notes := by
  obtain ⟨count, stops⟩ := parse.advances cursor
  rw [stops]
  exact ⟨finish_advanceBy count cursor, notes_advanceBy count cursor⟩

end Cursor

/-! ## The same declaration further on -/

/-- The tokens of a text, without terminators in front and the one that marks the end. -/
def Lexeme.codeFrom (offset line : Nat) (part : List Lexeme) : List Token :=
  (tokensFrom offset line false part).dropLast.dropWhile Token.isTerminator

/-- How a text that starts at `low` stands to the same text further on, with more behind it. -/
def Mirror.further (low bytes : Nat) (notes imageNotes : List Comment) (more : List Token)
    (lead limit : Nat) : Mirror where
  visitor := (SpanVisitor.moving (· + bytes) fun name _ => name).sure
  move := (· + bytes)
  Placed := (low ≤ ·)
  notes := notes
  imageNotes := imageNotes
  more := more
  lead := lead
  limit := limit
  dots := True
  span_eq _ _ _ := rfl
  move_le _ _ order := Nat.add_le_add_right order bytes

section Further

variable {offset line bytes lines limit : Nat} {part : List Lexeme} {place image : Cursor}
  {more : List Token}

/-- A token of the text and the one further on are twins. -/
theorem Mirror.twin_further {notes imageNotes : List Comment} {lead : Nat}
    (docs : ∀ number, line ≤ number → number ≤ line + lineCount part →
      docAbove imageNotes (number + lines) = docAbove notes number) {token : Token}
    (member : token ∈ tokensFrom offset line false part) :
    (Mirror.further offset bytes notes imageNotes more lead limit).Twin token
      (token.movedBy bytes lines) := by
  have behind := (tokensFrom_ordered offset line false part).1 token member
  have order : token.span.start ≤ token.span.stop := by
    obtain ⟨_, _, -, span⟩ := tokensFrom_covers member
    rw [span]
    exact Nat.le_add_right _ _
  have onLine := line_of_mem_tokensFrom member
  exact ⟨⟨rfl, fun _ => rfl⟩, fun _ => rfl, behind, behind.trans order, order, rfl,
    docs token.line onLine.1 onLine.2⟩

/-- Places in front of the text and of the same text further on are linked. -/
theorem Mirror.linked_further (ahead : place.ahead = codeFrom offset line part)
    (finish : place.finish ∈ tokensFrom offset line false part)
    (finishes : place.finish.kind = .finish)
    (ahead' : image.ahead = (codeFrom offset line part).map (Token.movedBy bytes lines) ++ more)
    (finish' : more = [] → image.finish = place.finish.movedBy bytes lines)
    (lastEnd : place.lastEnd ≤ offset) (lastEnd' : image.lastEnd ≤ offset + bytes)
    (taken : place.taken ≤ image.taken)
    (docs : ∀ number, line ≤ number → number ≤ line + lineCount part →
      docAbove image.notes (number + lines) = docAbove place.notes number)
    (room : limit < place.taken + place.ahead.length ∧
      ∀ last, place.ahead.getLast? = some last → last.isTerminator = true) :
    (Mirror.further offset bytes place.notes image.notes more (image.taken - place.taken)
      limit).Linked place image := by
  have inside {token : Token} (member : token ∈ place.ahead) :
      token ∈ tokensFrom offset line false part := by
    rw [ahead] at member
    exact List.mem_of_mem_dropLast ((List.dropWhile_suffix _).subset member)
  refine ⟨⟨place.ahead.map (Token.movedBy bytes lines), by rw [ahead', ahead]; rfl, ?_⟩, ?_, ?_,
    finishes, Or.inr room, ?_, ?_, rfl, rfl⟩
  · rw [List.forall₂_map_right_iff, List.forall₂_same]
    exact fun token member => twin_further docs (inside member)
  · intro count token twin _ stands stands' _
    have within := (List.getElem?_eq_some_iff.mp stands).1
    rw [ahead', ← ahead, List.getElem?_append_left (by rwa [List.length_map]), List.getElem?_map,
      stands] at stands'
    cases stands'
    rfl
  · intro last
    rw [finish' last]
    exact twin_further docs finish
  · change image.taken = place.taken + (image.taken - place.taken)
    omega
  · intro start behind
    have behind : offset ≤ start := behind
    unfold Span.upTo
    rw [Nat.max_eq_right (lastEnd.trans behind)]
    change Except.ok (⟨start + bytes, start + bytes⟩ : Span) =
      .ok ⟨start + bytes, max image.lastEnd (start + bytes)⟩
    rw [Nat.max_eq_right (by omega)]

/-- **A declaration that is read completely is read the same way further on.** -/
theorem Cursor.Declares.further {decls : List TopDecl} (declares : place.Declares decls)
    (deep : depthLimit place.ahead.length ≤ limit)
    (ahead : place.ahead = codeFrom offset line part)
    (finish : place.finish ∈ tokensFrom offset line false part)
    (ahead' : image.ahead = (codeFrom offset line part).map (Token.movedBy bytes lines) ++ more)
    (finish' : more = [] → image.finish = place.finish.movedBy bytes lines)
    (lastEnd : place.lastEnd ≤ offset) (lastEnd' : image.lastEnd ≤ offset + bytes)
    (taken : place.taken ≤ image.taken)
    (docs : ∀ number, line ≤ number → number ≤ line + lineCount part →
      docAbove image.notes (number + lines) = docAbove place.notes number) :
    ∃ after, (Parse.topLevel limit).run image = (decls.map (TopDecl.moved bytes), after) ∧
      (∃ waiting, after.ahead = waiting ++ more ∧ ∀ token ∈ waiting, token.isTerminator = true) ∧
      after.lastEnd ≤ offset + bytes + byteLength (flat part) ∧ image.taken < after.taken := by
  obtain ⟨starts, finishes, after, reads, left, terminators⟩ := declares
  have settled : (Parse.topLevel limit).run place = (decls, after) := by
    rw [← reads]
    refine ((Parse.agree_topLevel deep).run_eq fun _ => ⟨finishes, ?_⟩).symm
    unfold depthLimit
    omega
  have suffix : after.ahead <:+ place.ahead := by
    have stops := Cursor.ahead_run_suffix (Parse.topLevel limit) place
    rwa [settled] at stops
  have counted : after.taken + after.ahead.length = place.taken + place.ahead.length := by
    have same := Cursor.total_run (Parse.topLevel limit) place
    rwa [settled] at same
  -- The first token is no terminator, so it was taken.
  have moved : place.taken < after.taken := by
    have shorter : after.ahead.length ≠ place.ahead.length := by
      intro same
      have whole := suffix.eq_of_length same
      cases next : place.ahead with
      | nil => exact left (whole.trans next)
      | cons token rest =>
        have first := terminators token (by rw [whole, next]; exact List.mem_cons_self)
        unfold Cursor.peekAt at starts
        rw [next] at starts
        exact absurd (first.symm.trans starts) (by decide)
    have fewer := suffix.length_le
    omega
  have room : after.taken < place.taken + place.ahead.length ∧
      ∀ last, place.ahead.getLast? = some last → last.isTerminator = true := by
    have some := List.length_pos_iff.mpr left
    refine ⟨by omega, fun last isLast => terminators last ?_⟩
    obtain ⟨front, whole⟩ := suffix
    rw [← whole, List.getLast?_append_of_ne_nil _ left] at isLast
    exact List.mem_of_getLast? isLast
  have linked := Mirror.linked_further ahead finish finishes ahead' finish' lastEnd lastEnd' taken
    docs room
  have tracked := (Mirror.follows_topLevel : Mirror.Follows _ (Parse.topLevel limit)) place image
    linked (by rw [settled]; exact Nat.le_refl after.taken)
  rw [settled] at tracked
  obtain ⟨images, linked'⟩ := tracked
  refine ⟨((Parse.topLevel limit).run image).2, Prod.ext ?_ rfl, ?_, ?_, ?_⟩
  · have each : List.Forall₂ (fun decl image => TopDecl.moved bytes decl = image) decls
        ((Parse.topLevel limit).run image).1 := by
      refine images.imp fun decl image visited => ?_
      have visited : (SpanVisitor.moving (· + bytes) fun name _ => name).sure.topDecl decl =
          .ok image := visited fun _ => trivial
      rw [(SpanVisitor.exchanges_topDecl _).sure] at visited
      exact Except.ok.inj visited
    exact (List.forall₂_eq_eq_eq ▸ List.forall₂_map_left_iff.mpr each :
      decls.map (TopDecl.moved bytes) = _).symm
  · obtain ⟨twins, rest, paired⟩ := linked'.twins
    refine ⟨twins, rest, fun token member => ?_⟩
    obtain ⟨former, held, twin⟩ := exists_mem_of_forall₂ paired member
    rw [twin.isTerminator_eq]
    exact terminators former held
  · have ends : after.EndsBy (offset + byteLength (flat part)) := by
      have start : place.EndsBy (offset + byteLength (flat part)) := by
        refine ⟨by omega, fun token member => ?_⟩
        rw [ahead] at member
        obtain ⟨front, back, covers, span⟩ := tokensFrom_covers
          (List.mem_of_mem_dropLast ((List.dropWhile_suffix _).subset member))
        have length := congrArg byteLength covers
        rw [byteLength_append, byteLength_append] at length
        rw [span]
        simp only
        omega
      have stops := Cursor.Stable.run start (Parse.topLevel limit)
      rwa [settled] at stops
    have bound := ends.lastEnd
    have upTo : Except.ok (⟨offset + bytes, max after.lastEnd offset + bytes⟩ : Span) =
        Except.ok (ε := Fault) ⟨offset + bytes,
          max ((Parse.topLevel limit).run image).2.lastEnd (offset + bytes)⟩ :=
      linked'.lastEnd (Nat.le_refl offset)
    have same := congrArg Span.stop (Except.ok.inj upTo)
    simp only at same
    omega
  · have lead := linked'.taken
    change _ = after.taken + (image.taken - place.taken) at lead
    omega

end Further

/-! ## Round by round -/

namespace Parse

variable {limit fuel : Nat} {place after : Cursor} {decls : List TopDecl}

/-- Past its terminators a place has the tokens from the first other one on. -/
theorem ahead_pastTerminators (place : Cursor) :
    place.pastTerminators.ahead = place.ahead.dropWhile Token.isTerminator := by
  rw [Cursor.pastTerminators, Cursor.ahead_advanceBy]
  calc place.ahead.drop (place.ahead.takeWhile Token.isTerminator).length
      = (place.ahead.takeWhile Token.isTerminator ++
          place.ahead.dropWhile Token.isTerminator).drop
            (place.ahead.takeWhile Token.isTerminator).length := by
        rw [List.takeWhile_append_dropWhile]
    _ = place.ahead.dropWhile Token.isTerminator := List.drop_left

/-- Terminators do not count as the end of what was taken. -/
theorem lastEnd_pastTerminators (place : Cursor) :
    place.pastTerminators.lastEnd = place.lastEnd := by
  unfold Cursor.pastTerminators
  generalize covers : place.ahead.takeWhile Token.isTerminator = leading
  induction leading generalizing place with
  | nil => rfl
  | cons token rest ih =>
    cases next : place.ahead with
    | nil =>
      rw [next] at covers
      cases covers
    | cons first others =>
      rw [next, List.takeWhile_cons] at covers
      split at covers
      · rename_i terminates
        obtain ⟨-, covers⟩ := List.cons_eq_cons.mp covers
        rw [List.length_cons, Cursor.advanceBy, ih place.advance (by
          rw [Cursor.ahead_advance, next]
          exact covers), Cursor.advance_of_cons next]
        exact if_pos terminates
      · cases covers

/-- Past the last terminators is the end. -/
theorem peekAt_pastTerminators (only : ∀ token ∈ place.ahead, token.isTerminator = true) :
    place.pastTerminators.peekAt 0 = place.finish := by
  have done : place.pastTerminators.ahead = [] := by
    rw [ahead_pastTerminators, List.dropWhile_eq_nil_iff]
    exact only
  rw [Cursor.peekAt, done]
  exact Cursor.finish_advanceBy _ _

/-- Behind the last declaration nothing more is read. -/
theorem run_declarations_of_finish (finishes : (place.pastTerminators.peekAt 0).kind = .finish) :
    ((declarations limit fuel).run place).1 = [] := by
  cases fuel with
  | zero => rfl
  | succ fuel =>
    rw [declarations]
    change ((if ((place.pastTerminators.peekAt 0).kind == .finish) = true then pure [] else _ :
      Parse (List TopDecl)).run place.pastTerminators).1 = []
    rw [if_pos (beq_iff_eq.mpr finishes)]
    rfl

/-- A declaration is read, and then those behind it. -/
theorem run_declarations_succ (goesOn : (place.pastTerminators.peekAt 0).kind ≠ .finish)
    (reads : (topLevel limit).run place.pastTerminators = (decls, after))
    (moved : place.pastTerminators.taken < after.taken) :
    ((declarations limit (fuel + 1)).run place).1 =
      decls ++ ((declarations limit fuel).run after).1 := by
  rw [declarations]
  change ((if ((place.pastTerminators.peekAt 0).kind == .finish) = true then pure [] else
    taken >>= fun before => topLevel limit >>= fun decls => keepMoving before >>= fun _ =>
      declarations limit fuel >>= fun others => pure (decls ++ others) :
        Parse (List TopDecl)).run place.pastTerminators).1 = _
  rw [if_neg fun same => goesOn (beq_iff_eq.mp same), run_bind, run_bind, run_bind]
  change ((topLevel limit).run place.pastTerminators).1 ++ ((declarations limit fuel).run
    ((keepMoving place.pastTerminators.taken).run
      ((topLevel limit).run place.pastTerminators).2).2).1 = _
  rw [reads]
  have still : (keepMoving place.pastTerminators.taken).run after = ((), after) := by
    change ((), after.advanceBy
      (if (after.taken == place.pastTerminators.taken) = true then 1 else 0)) = _
    rw [if_neg fun same => Nat.ne_of_gt moved (beq_iff_eq.mp same)]
    rfl
  rw [still]

end Parse

/-! ## Texts behind each other -/

/-- The text reads as the declarations where it stands right behind the package clause: at an
offset and on a line, with the comments and the number of tokens of the clause in front. It does
not end with a comment of its own. -/
structure Lexeme.ReadsAs (offset line base : Nat) (notes : List Comment) (part : List Lexeme)
    (decls : List TopDecl) : Prop where
  /-- Where its first declaration starts. -/
  place : ∃ place : Cursor, place.Declares decls ∧ place.ahead = codeFrom offset line part ∧
    (tokensFrom offset line false part).getLast? = some place.finish ∧ place.lastEnd ≤ offset ∧
    place.notes = notesFrom offset line part ++ notes ∧
    place.taken + place.ahead.length =
      base + (tokensFrom offset line false part).dropLast.length
  /-- No comment without code in front ends on the last line. -/
  quiet : ∀ note ∈ notesFrom offset line part, note.endLine < line + lineCount part

/-- What texts declare that stand behind each other, the first of them so many bytes further on. -/
def placedFrom (bytes : Nat) : List (List Lexeme × List TopDecl) → List TopDecl
  | [] => []
  | (part, decls) :: rest =>
    decls.map (TopDecl.moved bytes) ++ placedFrom (bytes + byteLength (flat part) + 1) rest

section Behind

variable {offset line base bytes lines limit fuel : Nat} {notes : List Comment}
  {part : List Lexeme} {decls : List TopDecl}

/-- A text that reads as something has tokens. -/
theorem Lexeme.ReadsAs.codeFrom_ne_nil (reads : ReadsAs offset line base notes part decls) :
    codeFrom offset line part ≠ [] := by
  obtain ⟨place, ⟨-, -, after, runs, left, -⟩, ahead, -⟩ := reads.place
  intro none
  have suffix := Cursor.ahead_run_suffix (Parse.topLevel (depthLimit place.ahead.length)) place
  rw [runs, ahead, none, List.suffix_nil] at suffix
  exact left suffix

/-- **The next text is read** as it is by itself, whatever follows. -/
theorem Lexeme.ReadsAs.round (reads : ReadsAs offset line base notes part decls)
    (positive : 0 < line) (far : ∀ note ∈ notes, note.endLine + 1 < line) {place : Cursor}
    {waiting more : List Token} {later front : List Comment}
    (deep : depthLimit place.ahead.length ≤ limit)
    (ahead : place.ahead = waiting ++
      ((tokensFrom (offset + bytes) (line + lines) false part).dropLast ++ more))
    (waits : ∀ token ∈ waiting, token.isTerminator = true)
    (finish : more = [] →
      (tokensFrom (offset + bytes) (line + lines) false part).getLast? = some place.finish)
    (lastEnd : place.lastEnd ≤ offset + bytes)
    (total : base + (tokensFrom (offset + bytes) (line + lines) false part).dropLast.length +
      more.length ≤ place.taken + place.ahead.length)
    (comments : place.notes =
      later ++ notesFrom (offset + bytes) (line + lines) part ++ front)
    (behind : ∀ note ∈ later, line + lines + lineCount part ≤ note.endLine)
    (far' : ∀ note ∈ front, note.endLine + 1 < line + lines) :
    ∃ after, (∀ fuel, ((Parse.declarations limit (fuel + 1)).run place).1 =
        decls.map (TopDecl.moved bytes) ++ ((Parse.declarations limit fuel).run after).1) ∧
      (∃ waiting, after.ahead = waiting ++ more ∧ ∀ token ∈ waiting, token.isTerminator = true) ∧
      after.finish = place.finish ∧ after.notes = place.notes ∧
      after.lastEnd ≤ offset + bytes + byteLength (flat part) ∧
      after.taken + after.ahead.length = place.taken + place.ahead.length ∧
      after.ahead.length < place.ahead.length := by
  have nonempty := reads.codeFrom_ne_nil
  obtain ⟨origin, declares, code, finish₀, lastEnd₀, comments₀, total₀⟩ := reads.place
  have tokens := tokensFrom_add offset line false part bytes lines
  have past : place.pastTerminators.ahead =
      (codeFrom offset line part).map (Token.movedBy bytes lines) ++ more := by
    have own : ((tokensFrom offset line false part).dropLast.map
        (Token.movedBy bytes lines)).dropWhile Token.isTerminator =
          (codeFrom offset line part).map (Token.movedBy bytes lines) := by
      rw [List.dropWhile_map]
      rfl
    rw [Parse.ahead_pastTerminators, ahead, List.dropWhile_append_of_pos waits, tokens,
      ← List.map_dropLast, List.dropWhile_append, own]
    exact if_neg fun none => nonempty (List.map_eq_nil_iff.mp (List.isEmpty_iff.mp none))
  have counted : place.pastTerminators.taken + place.pastTerminators.ahead.length =
      place.taken + place.ahead.length := Cursor.total_advanceBy _ place
  have member : origin.finish ∈ tokensFrom offset line false part := List.mem_of_getLast? finish₀
  have lengths : (tokensFrom (offset + bytes) (line + lines) false part).dropLast.length =
      (tokensFrom offset line false part).dropLast.length := by
    rw [tokens, List.length_dropLast, List.length_dropLast, List.length_map]
  have sizes := congrArg List.length past
  rw [List.length_append, List.length_map, ← code] at sizes
  have shorter : place.pastTerminators.ahead.length ≤ place.ahead.length := by
    rw [Parse.ahead_pastTerminators]
    exact (List.dropWhile_suffix _).length_le
  have keeps : place.pastTerminators.finish = place.finish ∧
      place.pastTerminators.notes = place.notes :=
    ⟨Cursor.finish_advanceBy _ _, Cursor.notes_advanceBy _ _⟩
  have goesOn : (place.pastTerminators.peekAt 0).kind ≠ .finish := by
    obtain ⟨first, others, starts⟩ := List.exists_cons_of_ne_nil nonempty
    have held : first ∈ (tokensFrom offset line false part).dropLast :=
      (List.dropWhile_suffix _).subset (starts ▸ List.mem_cons_self)
    unfold Cursor.peekAt
    rw [past, starts]
    exact (kind_of_mem_dropLast held : first.kind ≠ .finish)
  have docs (number : Nat) (low : line ≤ number) (high : number ≤ line + lineCount part) :
      docAbove place.pastTerminators.notes (number + lines) = docAbove origin.notes number := by
    rw [keeps.2, comments, comments₀, notesFrom_add]
    refine docAbove_between positive (fun note held => (lines_of_mem_notesFrom held).1) far far'
      (fun note held => ?_) low
    have after := behind note held
    omega
  obtain ⟨after, runs, ⟨left, ends, terminators⟩, last, moved⟩ := declares.further
    (by
      unfold depthLimit at deep ⊢
      omega : depthLimit origin.ahead.length ≤ limit)
    code member past
    (fun none => by
      have same := finish none
      rw [tokens, List.getLast?_map, finish₀, Option.map_some] at same
      rw [keeps.1]
      exact (Option.some.inj same).symm)
    lastEnd₀ (by rw [Parse.lastEnd_pastTerminators]; exact lastEnd)
    (by rw [lengths] at total; omega) docs
  have kept := Cursor.kept_run (Parse.topLevel limit) place.pastTerminators
  have counted' : after.taken + after.ahead.length = place.taken + place.ahead.length := by
    have same := Cursor.total_run (Parse.topLevel limit) place.pastTerminators
    rwa [runs, counted] at same
  rw [runs, keeps.1, keeps.2] at kept
  exact ⟨after, fun _ => Parse.run_declarations_succ goesOn runs moved, ⟨left, ends, terminators⟩,
    kept.1, kept.2, last, counted', by omega⟩

/-- The place stands in front of a text, terminators apart, and was reached from the clause. -/
structure Cursor.Before (offset line base : Nat) (lexemes : List Lexeme) (place : Cursor) :
    Prop where
  ahead : ∃ waiting, place.ahead = waiting ++ (tokensFrom offset line false lexemes).dropLast ∧
    ∀ token ∈ waiting, token.isTerminator = true
  finish : (tokensFrom offset line false lexemes).getLast? = some place.finish
  lastEnd : place.lastEnd ≤ offset
  /-- Comments in front do not end right above. -/
  notes : ∃ front, place.notes = notesFrom offset line lexemes ++ front ∧
    ∀ note ∈ front, note.endLine + 1 < line
  total : base + (tokensFrom offset line false lexemes).dropLast.length ≤
    place.taken + place.ahead.length

/-- **Texts that are joined by line breaks are read one after the other.** -/
theorem declarations_joined (positive : 0 < line)
    (far : ∀ note ∈ notes, note.endLine + 1 < line) {rest : List (List Lexeme × List TopDecl)}
    (each : ∀ unit ∈ (part, decls) :: rest, ReadsAs offset line base notes unit.1 unit.2)
    {place : Cursor} (before : place.Before (offset + bytes) (line + lines) base
      (joined part (rest.map Prod.fst)))
    (deep : depthLimit place.ahead.length ≤ limit) (often : place.ahead.length < fuel) :
    ((Parse.declarations limit fuel).run place).1 = placedFrom bytes ((part, decls) :: rest) := by
  induction rest generalizing part decls bytes lines place fuel with
  | nil =>
    have reads : ReadsAs offset line base notes part decls := each _ List.mem_cons_self
    obtain ⟨waiting, ahead, waits⟩ := before.ahead
    obtain ⟨front, comments, far'⟩ := before.notes
    obtain ⟨less, rfl⟩ : ∃ less, fuel = less + 1 := ⟨fuel - 1, by omega⟩
    have ahead' : place.ahead = waiting ++
        ((tokensFrom (offset + bytes) (line + lines) false part).dropLast ++ []) := by
      rw [ahead, List.append_nil]
      rfl
    have comments' : place.notes =
        [] ++ notesFrom (offset + bytes) (line + lines) part ++ front := comments
    obtain ⟨after, runs, ⟨left, ends, terminators⟩, finish, -⟩ :=
      reads.round positive far deep ahead' waits (fun _ => before.finish) before.lastEnd
        before.total comments' nofun far'
    have finishes : (after.pastTerminators.peekAt 0).kind = .finish := by
      have marks := before.finish
      rw [getLast?_tokensFrom] at marks
      rw [Parse.peekAt_pastTerminators (by rwa [ends, List.append_nil]), finish,
        ← Option.some.inj marks]
    rw [runs, Parse.run_declarations_of_finish finishes]
    rfl
  | cons next rest ih =>
    obtain ⟨part', decls'⟩ := next
    have reads : ReadsAs offset line base notes part decls := each _ List.mem_cons_self
    have others : ∀ unit ∈ (part', decls') :: rest,
        ReadsAs offset line base notes unit.1 unit.2 := fun unit member =>
      each unit (List.mem_cons_of_mem _ member)
    obtain ⟨waiting, ahead, waits⟩ := before.ahead
    obtain ⟨front, comments, far'⟩ := before.notes
    obtain ⟨less, rfl⟩ : ∃ less, fuel = less + 1 := ⟨fuel - 1, by omega⟩
    let whole := joined part' (rest.map Prod.fst)
    have offset_eq : offset + bytes + byteLength (flat part) + 1 =
        offset + (bytes + byteLength (flat part) + 1) := by omega
    have line_eq : line + lines + lineCount part + 1 = line + (lines + lineCount part + 1) := by
      omega
    let behind := tokensFrom (offset + (bytes + byteLength (flat part) + 1))
      (line + (lines + lineCount part + 1)) false whole
    have tokens : tokensFrom (offset + bytes) (line + lines) false
        (joined part (((part', decls') :: rest).map Prod.fst)) =
          (tokensFrom (offset + bytes) (line + lines) false part).dropLast ++ behind := by
      unfold behind
      rw [← offset_eq, ← line_eq]
      exact tokensFrom_append_newline _ _ _ part whole
    have some : behind ≠ [] := tokensFrom_ne_nil _ _ _ _
    have below : (tokensFrom (offset + bytes) (line + lines) false
        (joined part (((part', decls') :: rest).map Prod.fst))).dropLast =
          (tokensFrom (offset + bytes) (line + lines) false part).dropLast ++ behind.dropLast := by
      rw [tokens, List.dropLast_append_of_ne_nil some]
    have goesOn : behind.dropLast ≠ [] := by
      intro none
      obtain ⟨more, same⟩ := dropLast_tokensFrom_joined
        (offset + (bytes + byteLength (flat part) + 1)) (line + (lines + lineCount part + 1)) part'
          (rest.map Prod.fst)
      have nothing := (List.append_eq_nil_iff.mp (same.symm.trans none)).1
      rw [tokensFrom_add, ← List.map_dropLast, List.map_eq_nil_iff] at nothing
      refine (others _ List.mem_cons_self : ReadsAs _ _ _ _ part' decls').codeFrom_ne_nil ?_
      rw [codeFrom, nothing]
      rfl
    have comments' : place.notes = notesFrom (offset + (bytes + byteLength (flat part) + 1))
        (line + (lines + lineCount part + 1)) whole ++
          notesFrom (offset + bytes) (line + lines) part ++ front := by
      rw [comments, ← offset_eq, ← line_eq]
      exact congrArg (· ++ front) (notesFrom_append_newline _ _ part whole)
    have total := before.total
    rw [below, List.length_append] at total
    obtain ⟨after, runs, ⟨left, ends, terminators⟩, finish, kept, last, counted, shorter⟩ :=
      reads.round positive far deep (by rw [ahead, below]) waits (fun none => absurd none goesOn)
        before.lastEnd (by omega) comments' (fun note held => by
          have bounds := lines_of_mem_notesFrom held
          omega) far'
    rw [runs, placedFrom]
    refine congrArg _ (ih others ⟨⟨left, ends, terminators⟩, ?_, by omega, ?_, ?_⟩ ?_ (by omega))
    · have marks := before.finish
      rw [tokens, List.getLast?_append_of_ne_nil _ some] at marks
      rw [finish]
      exact marks
    · refine ⟨notesFrom (offset + bytes) (line + lines) part ++ front, ?_, fun note held => ?_⟩
      · rw [kept, comments', List.append_assoc]
      · rcases List.mem_append.mp held with own | former
        · rw [notesFrom_add] at own
          obtain ⟨note', held', rfl⟩ := List.mem_map.mp own
          have bound := reads.quiet note' held'
          simp only [movedDown]
          omega
        · have bound := far' note former
          omega
    · rw [counted]
      change base + behind.dropLast.length ≤ _
      omega
    · unfold depthLimit at deep ⊢
      omega

end Behind

end GoRefactor
