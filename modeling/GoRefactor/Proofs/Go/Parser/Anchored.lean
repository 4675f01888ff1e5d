import GoRefactor.Proofs.Edit.LaidOut
import GoRefactor.Proofs.Go.Offers

/-!
# Scanned files are anchored in their text

A file that was scanned says nothing of its text that is not there. Its spans cut the text between
characters, its names stand under their spans, no span starts or stops within a name, a declaration
covers its own name, and every declaration is kept under the name it has. All but the last two hold
because the file keeps to the lexemes of its text; where declarations start and stop is read off the
functions of the parser that make them.
-/

namespace GoRefactor

/-- The declaration covers its name. -/
def TopDecl.CoversName : TopDecl → Prop
  | .importing _ => True
  | .type decl => decl.extent.contains decl.nameSpan = true
  | .function decl => decl.extent.contains decl.nameSpan = true
  | .var decl => decl.extent.contains decl.nameSpan = true
  | .const decl => decl.extent.contains decl.nameSpan = true

/-- A span that starts before and stops behind another one contains it. -/
theorem Span.contains_upTo {start stop : Nat} {inner : Span} (first : start ≤ inner.start)
    (last : inner.stop ≤ stop) : (Span.upTo start stop).contains inner = true := by
  have stops : inner.stop ≤ max stop start := Nat.le_trans last (Nat.le_max_left _ _)
  simp only [Span.contains, Span.upTo, first, stops, decide_true, Bool.and_self]

namespace Cursor

variable {stream : TokenStream} {low : Nat} {place : Cursor}

/-- A proper token that comes next starts behind the offset, and once it was taken the last token
ended where it stops. -/
theorem Beyond.next (inside : place.Beyond stream low)
    (proper : (place.peekAt 0).kind ≠ .finish) (goesOn : (place.peekAt 0).isTerminator = false) :
    low ≤ (place.peekAt 0).span.start ∧ place.advance.Beyond stream (place.peekAt 0).span.stop := by
  obtain ⟨rest, ahead⟩ := Parse.ahead_of_peekAt inside.finishes proper
  obtain ⟨behind, ends⟩ := inside.toOrdered.lastEnd_advance ahead goesOn
  exact ⟨Nat.le_trans inside.low_le behind, Stable.advance place inside.toOrdered,
    Stable.advance place inside.toAlong, Nat.le_of_eq ends.symm⟩

end Cursor

namespace Parse

variable {stream : TokenStream} {low limit : Nat}

/-- Names in front are among the tokens that they take. -/
theorem mem_take_of_nameRun (tokens : List Token) : ∀ token ∈ (nameRun tokens).1,
    token ∈ tokens.take (nameRun tokens).2 ∧ token.kind = .identifier := by
  fun_induction nameRun tokens with
  | case1 => simp
  | case2 token named =>
    have named := eq_of_beq named
    simp_all
  | case3 token named comma more _ names count found ih =>
    have named := eq_of_beq named
    simp_all
  | case4 token named =>
    have named := eq_of_beq named
    simp_all
  | case5 => simp

/-- Names in front start where the next token does, or behind it. -/
theorem le_start_of_mem_nameRun {place : Cursor} (ordered : place.Ordered) {token : Token}
    (member : token ∈ (nameRun place.ahead).1) :
    (place.peekAt 0).span.start ≤ token.span.start := by
  obtain ⟨held, -⟩ := mem_take_of_nameRun place.ahead token member
  cases next : place.ahead with
  | nil => simp [next] at held
  | cons first rest =>
    have ahead : place.peekAt 0 = first := by
      unfold Cursor.peekAt
      rw [next]
      rfl
    rw [ahead]
    have sorted := ordered.sorted
    rw [next] at held sorted
    rcases List.mem_cons.mp (List.mem_of_mem_take held) with rfl | later
    · exact Nat.le_refl _
    · refine Nat.le_trans (ordered.order first ?_) ((List.pairwise_cons.mp sorted).1 token later)
      rw [next]
      exact List.mem_cons_self

variable {α : Type} {post : α → Prop}

/-- Finding out where a specification starts takes no token. -/
theorem run_specStart (inGroup : Bool) (keywordStart : Nat) (place : Cursor) :
    (specStart inGroup keywordStart).run place =
      (if inGroup then (place.peekAt 0).span.start else keywordStart, place) := by
  cases inGroup <;> rfl

/-- A name that is taken stands behind the offset, and the last token ended where it stops. -/
theorem named_at {place : Cursor} (inside : place.Beyond stream low) {following : Token → Parse α}
    {other : Parse α} (found : low ≤ (place.peekAt 0).span.start →
      Yields stream (place.peekAt 0).span.stop post (following (place.peekAt 0)))
    (missed : Yields stream low post other) :
    post ((isKind .identifier >>= fun yes =>
      if yes = true then take >>= following else other).run place).1 := by
  change post ((if ((place.peekAt 0).kind == .identifier) = true then _ else _ : Parse α).run
    place).1
  by_cases named : (place.peekAt 0).kind = .identifier
  · have goesOn : (place.peekAt 0).isTerminator = false := by
      unfold Token.isTerminator
      rw [named]
      rfl
    obtain ⟨behind, reached⟩ := inside.next (by rw [named]; decide) goesOn
    rw [if_pos (beq_iff_eq.mpr named)]
    exact found behind _ reached
  · rw [if_neg (mt beq_iff_eq.mp named)]
    exact missed place inside

/-- A name that is taken behind a test, with its place. -/
theorem Yields.named {following : Token → Parse α} {other : Parse α}
    (found : ∀ name : Token, low ≤ name.span.start →
      Yields stream name.span.stop post (following name))
    (missed : Yields stream low post other) :
    Yields stream low post (isKind .identifier >>= fun yes =>
      if yes = true then take >>= following else other) :=
  fun _ inside => named_at inside (found _) missed

/-- After a test for the next token, what holds behind both answers holds. -/
theorem of_is (post : α → Prop) {text : String} {yes no : Parse α} {place : Cursor}
    (found : (place.peekAt 0).is text = true → post (yes.run place).1)
    (missed : post (no.run place).1) :
    post ((is text >>= fun held => if held = true then yes else no).run place).1 := by
  change post ((if (place.peekAt 0).is text = true then yes else no).run place).1
  by_cases held : (place.peekAt 0).is text = true
  · rw [if_pos held]
    exact found held
  · rw [if_neg held]
    exact missed

/-- A specification starts at its keyword, or in a group at its own first token: never behind the
name that stands there. -/
theorem Yields.specName {inGroup : Bool} {keywordStart : Nat} (starts : keywordStart ≤ low)
    {following : Nat → Token → Parse α} {other : Nat → Parse α}
    (found : ∀ start (name : Token), start ≤ name.span.start →
      Yields stream name.span.stop post (following start name))
    (missed : ∀ start, Yields stream low post (other start)) :
    Yields stream low post (specStart inGroup keywordStart >>= fun start =>
      isKind .identifier >>= fun yes =>
        if yes = true then take >>= following start else other start) := by
  intro place inside
  rw [run_bind, run_specStart]
  refine named_at inside (fun behind => found _ _ ?_) (missed _)
  split
  · exact Nat.le_refl _
  · exact Nat.le_trans starts behind

/-- The names of a specification stand behind its start, and are behind once they were taken. -/
theorem Yields.specNames {inGroup : Bool} {keywordStart : Nat} (starts : keywordStart ≤ low)
    {following : Nat → List Token → Parse α}
    (found : ∀ start tokens stop,
      (∀ token ∈ tokens, start ≤ token.span.start ∧ token.span.stop ≤ stop) →
      Yields stream stop post (following start tokens)) :
    Yields stream low post (specStart inGroup keywordStart >>= fun start =>
      Parse.names >>= following start) := by
  intro place inside
  rw [run_bind, run_specStart]
  have reached : (place.advanceBy (nameRun place.ahead).2).Beyond stream low :=
    Cursor.Stable.advanceBy inside _
  refine found _ (nameRun place.ahead).1 (place.advanceBy (nameRun place.ahead).2).lastEnd ?_ _
    ⟨reached.toOrdered, reached.toAlong, Nat.le_refl _⟩
  intro token member
  obtain ⟨held, named⟩ := mem_take_of_nameRun place.ahead token member
  constructor
  · split
    · exact le_start_of_mem_nameRun inside.toOrdered member
    · exact Nat.le_trans starts (Nat.le_trans inside.low_le
        (inside.behind token (List.mem_of_mem_take held)))
  · refine inside.toOrdered.stop_le_lastEnd held ?_
    unfold Token.isTerminator
    rw [named]
    rfl

/-- A declared type covers its name. -/
theorem yields_typeSpec_covers (inGroup : Bool) {keywordStart : Nat} (starts : keywordStart ≤ low)
    (doc : Option String) :
    Yields stream low (fun decls => ∀ decl ∈ decls, decl.CoversName)
      (typeSpec limit inGroup keywordStart doc) := by
  have rest (name : Token) {start : Nat} (order : start ≤ name.span.start) :
      Yields stream name.span.stop (fun decls => ∀ decl ∈ decls, TopDecl.CoversName decl) (do
        skip "="
        let shape ← typeShape limit
        let extent ← spanFrom start
        return [.type ⟨name.text, name.span, extent, shape, doc⟩]) :=
    .behind fun _ => .behind fun _ place inside =>
      List.forall_mem_singleton.mpr (Span.contains_upTo order inside.low_le)
  unfold typeSpec
  refine .specName starts (fun start name order => .behind fun _ => .ite (.behind fun _ => ?_) ?_)
    fun _ => .behind fun _ => .pure (List.forall_mem_nil _)
  · exact rest name order
  · exact rest name order

/-- The names of a specification are covered by its extent. -/
theorem yields_valueSpec_covers (inGroup : Bool) {keywordStart : Nat} (starts : keywordStart ≤ low)
    (doc : Option String) :
    Yields stream low (fun decls => ∀ decl ∈ decls, decl.extent.contains decl.nameSpan = true)
      (valueSpec limit inGroup keywordStart doc) := by
  unfold valueSpec
  refine .specNames starts fun start tokens stop covered => .ite
    (.behind fun _ => .pure (List.forall_mem_nil _)) ?_
  refine .behind fun typed => .behind fun values place inside => ?_
  intro decl member
  obtain ⟨⟨token, typeNode, value⟩, paired, rfl⟩ := List.mem_map.mp member
  obtain ⟨first, last⟩ := covered token (List.of_mem_zip paired).1
  exact Span.contains_upTo first (Nat.le_trans last inside.low_le)

/-- A function covers its name. -/
theorem yields_funcDecl_covers {place : Cursor} (inside : place.Beyond stream low)
    (found : (place.peekAt 0).is "func" = true) :
    ∀ decl ∈ ((funcDecl limit).run place).1, decl.CoversName := by
  obtain ⟨proper, goesOn⟩ := kind_of_is found
  have rest (name keyword : Token) (order : keyword.span.start ≤ name.span.start)
      (doc : Option String) (receiver : Option Param) :
      Yields stream name.span.stop (fun decls => ∀ decl ∈ decls, TopDecl.CoversName decl) (do
        let start ← nextStart
        let params ← params limit
        let results ← results limit
        let signatureSpan ← spanFrom start
        let body ← funcBody limit
        let extent ← spanFrom keyword.span.start
        return [.function ⟨name.text, name.span, extent, receiver, params, results,
          signatureSpan, body, doc⟩]) :=
    .behind fun _ => .behind fun _ => .behind fun _ => .behind fun _ =>
      .behind fun _ place inside =>
      List.forall_mem_singleton.mpr (Span.contains_upTo order inside.low_le)
  have behind (doc : Option String) (keyword : Token) :
      Yields stream keyword.span.start (fun decls => ∀ decl ∈ decls, TopDecl.CoversName decl) (do
        let receiver ← receiver limit
        if ← isKind .identifier then
          let name ← take
          if ← is "[" then skipGroup
          let start ← nextStart
          let params ← params limit
          let results ← results limit
          let signatureSpan ← spanFrom start
          let body ← funcBody limit
          let extent ← spanFrom keyword.span.start
          return [.function ⟨name.text, name.span, extent, receiver, params, results,
            signatureSpan, body, doc⟩]
        else
          skipStatement
          return []) := by
    refine .behind fun receiver => .named (fun name order => ?_)
      (.behind fun _ => .pure (List.forall_mem_nil _))
    exact .behind fun _ => .ite (.behind fun _ => rest name keyword order doc receiver)
      (rest name keyword order doc receiver)
  unfold funcDecl
  rw [run_bind, run_bind]
  exact behind _ _ _ (inside.advance_of_next proper goesOn)

/-- Behind a keyword that was taken, specifications start no earlier than it does. -/
theorem grouped_behind {each : α → Prop} {spec : Option String → Parse (List α)}
    {place : Cursor} (inside : place.Beyond stream low) {text : String}
    (found : (place.peekAt 0).is text = true)
    (yields : ∀ doc, Yields stream (place.peekAt 0).span.start
      (fun decls => ∀ decl ∈ decls, each decl) (spec doc)) :
    ∀ decl ∈ ((grouped limit spec).run place).1, each decl := by
  obtain ⟨proper, goesOn⟩ := kind_of_is found
  have rounds (doc : Option String) : Yields stream (place.peekAt 0).span.start
      (fun decls => ∀ decl ∈ decls, each decl)
      (do if ← eat "(" then groupRounds spec limit else spec doc) :=
    .behind fun _ => .ite (yields_groupRounds yields limit) (yields doc)
  rw [grouped, run_bind, run_bind]
  exact rounds _ _ (inside.advance_of_next proper goesOn)

/-- The declarations that start at the next token cover their names. -/
theorem yields_topLevel_covers :
    Yields stream low (fun decls => ∀ decl ∈ decls, TopDecl.CoversName decl) (topLevel limit) := by
  intro place inside
  have values (make : ValueDecl → TopDecl)
      (covers : ∀ decl : ValueDecl, decl.extent.contains decl.nameSpan = true →
        (make decl).CoversName) {text : String} (found : (place.peekAt 0).is text = true)
      (inGroup : Bool) : ∀ decl ∈ ((List.map make <$> grouped limit
        (valueSpec limit inGroup (place.peekAt 0).span.start)).run place).1, decl.CoversName := by
    refine List.forall_mem_map.mpr fun decl member => covers decl ?_
    exact grouped_behind inside found
      (fun doc => yields_valueSpec_covers inGroup (Nat.le_refl _) doc) decl member
  unfold topLevel
  rw [run_bind, run_bind]
  let all (decls : List TopDecl) : Prop := ∀ decl ∈ decls, decl.CoversName
  refine of_is all (fun found => ?_) <| of_is all (fun found => ?_) <|
    of_is all (fun found => ?_) <| of_is all (fun found => ?_) <| of_is all (fun found => ?_) ?_
  · exact grouped_behind inside found fun _ => .behind fun _ => .behind fun _ =>
      .ite (.behind fun _ => .pure (List.forall_mem_singleton.mpr trivial))
        (.behind fun _ => .pure (List.forall_mem_nil _))
  · exact grouped_behind inside found fun doc => yields_typeSpec_covers _ (Nat.le_refl _) doc
  · exact yields_funcDecl_covers inside found
  · exact values .var (fun _ covers => covers) found _
  · exact values .const (fun _ covers => covers) found _
  · exact List.forall_mem_nil _

end Parse

/-! ## What is shown of a file that keeps to its lexemes -/

/-- An offset between two characters of a text, or at one of its ends. -/
def Boundary (content : String) (offset : Nat) : Prop :=
  ∃ front back, content = front ++ back ∧ front.utf8ByteSize = offset

/-- Both ends of what a span covers are between characters, and inside the text. -/
theorem Span.boundary_of_slice? {span : Span} {content text : String}
    (covers : span.slice? content = some text) :
    Boundary content span.start ∧ Boundary content span.stop ∧
      span.stop ≤ content.utf8ByteSize := by
  obtain ⟨order, front, back, rfl, first, last⟩ := Span.slice?_eq_some_iff.mp covers
  have stop : (front ++ text).utf8ByteSize = span.stop := by
    rw [String.utf8ByteSize_append, first, last]
    omega
  refine ⟨⟨front, text ++ back, String.append_assoc, first⟩, ⟨front ++ text, back, rfl, stop⟩, ?_⟩
  rw [String.utf8ByteSize_append, stop]
  exact Nat.le_add_right _ _

namespace SourceFile

/-- What a file says of its text is there. -/
structure Anchored (file : SourceFile) : Prop where
  /-- Spans stop no earlier than they start, and within the text. -/
  inside : ∀ span ∈ file.spans, span.start ≤ span.stop ∧ span.stop ≤ file.content.utf8ByteSize
  /-- They cut the text between characters. -/
  between : ∀ span ∈ file.spans,
    Boundary file.content span.start ∧ Boundary file.content span.stop
  /-- Names stand under their spans. -/
  named : ∀ entry ∈ file.names, file.text entry.2 = entry.1
  /-- No span starts or stops within a name. -/
  apart : ∀ span ∈ file.spans, ∀ entry ∈ file.names, ∀ offset ∈ [span.start, span.stop],
    offset ≤ entry.2.start ∨ entry.2.stop ≤ offset
  /-- Types, functions, methods and values cover their names. -/
  covers : ∀ decl ∈ file.decls, decl.CoversName
  /-- Declarations that are kept by name are kept under their own. -/
  keyed : file.Keyed

/-- What is shown of a file that keeps to marks is marked. -/
theorem FixedBy.shown {file : SourceFile} {marks : Marks} (fixed : file.FixedBy marks.guard) :
    (∀ span ∈ file.spans, marks.Spans span) ∧
      ∀ entry ∈ file.names, marks.Named entry.1 entry.2 := by
  have passes : ∃ image, marks.guard.file file = .ok image :=
    ⟨_, @Marks.file_eq marks id (fun name _ => name) _ _ fixed
      (fun _ spans => Marks.guard_span_iff.mpr ⟨spans, rfl⟩)
      fun _ _ named _ => Marks.guard_name_iff.mpr ⟨named, rfl⟩⟩
  have answers := (SpanVisitor.tours_file file).lists.mp passes
  constructor
  · intro span shown
    obtain ⟨offer, listed, rfl⟩ := List.mem_map.mp shown
    obtain ⟨image, given⟩ := answers offer listed
    exact (Marks.guard_span_iff.mp (SpanVisitor.place_of_answer given)).1
  · intro entry shown
    obtain ⟨offer, listed, named⟩ := List.mem_filterMap.mp shown
    obtain ⟨image, given⟩ := answers offer listed
    cases offer with
    | span => cases named
    | name name span =>
      cases named
      obtain ⟨both, passed, -⟩ := map_eq_ok.mp given
      exact (Marks.guard_named_iff.mp passed).1

/-- What is declared covers its name. -/
theorem covers_of_parse {path content : String} {file : SourceFile}
    (parsed : SourceFile.parse path content = .ok file) : ∀ decl ∈ file.decls, decl.CoversName := by
  obtain ⟨stream, scanned⟩ := stream_of_parse parsed
  obtain ⟨name, decls, found, rfl⟩ := decls_of_parse parsed scanned
  obtain ⟨-, -, place, limit, ordered, along, -, rfl⟩ := TokenStream.place_of_parse scanned found
  have covers : ∀ decl ∈ ((Parse.declarations limit limit).run place).1, decl.CoversName :=
    Parse.yields_declarations Parse.yields_topLevel_covers limit place
      ⟨ordered, along, Nat.zero_le _⟩
  intro decl declared
  rcases List.mem_append.mp ((decls_foldl_add _ _).subset declared) with listed | none
  · obtain ⟨given, held, rfl⟩ := List.mem_map.mp listed
    have covered := covers given held
    cases given <;> exact covered
  · cases none

open Lexeme in
/-- **A scanned file is anchored in its text.** -/
theorem anchored_of_parse {path content : String} {file : SourceFile}
    (parsed : SourceFile.parse path content = .ok file) :
    file.content = content ∧ file.Anchored := by
  obtain ⟨lexemes, laid⟩ := laidOut_of_parse parsed
  obtain ⟨spans, names⟩ := laid.fixed.shown
  have cut {span : Span} (shown : span ∈ file.spans) :
      ∃ text, span.slice? file.content = some text := by
    rw [laid.content]
    exact spans_cut (spans span shown)
  refine ⟨(path_of_parse parsed).2, ?_, ?_, ?_, ?_, covers_of_parse parsed, keyed_of_parse parsed⟩
  · intro span shown
    obtain ⟨text, covers⟩ := cut shown
    exact ⟨(spans span shown).2.2, (Span.boundary_of_slice? covers).2.2⟩
  · intro span shown
    obtain ⟨text, covers⟩ := cut shown
    exact ⟨(Span.boundary_of_slice? covers).1, (Span.boundary_of_slice? covers).2.1⟩
  · intro entry shown
    obtain ⟨lexeme, stands, same, -⟩ := names entry shown
    rw [text, laid.content, stands.slice?, Option.getD_some, same]
  · -- A name is one lexeme, and between two neighbouring offsets there is no third.
    intro span shown entry named
    obtain ⟨lexeme, stands, -⟩ := names entry named
    obtain ⟨count, covers⟩ := stands.places
    have beside (other : Nat) : place lexemes other ≤ entry.2.start ∨
        entry.2.stop ≤ place lexemes other := by
      rw [covers]
      exact (Nat.lt_or_ge count other).symm.imp place_le place_le
    obtain ⟨⟨first, start⟩, ⟨last, stop⟩, -⟩ := spans span shown
    simp only [List.forall_mem_cons, start, stop]
    exact ⟨beside first, beside last, List.forall_mem_nil _⟩

/-- Anchored, for letters of two bytes, an embedded field and a statement that breaks off. -/
theorem anchored_example : ∃ file,
    SourceFile.parse "p/é.go"
      "package p\n\ntype É struct{ *T }\n\nfunc (é É) F(a, b int) { é. }\n" =
      .ok file ∧ file.names.length = 12 ∧ file.Anchored := by
  have evaluated : checkOk
      (SourceFile.parse "p/é.go"
        "package p\n\ntype É struct{ *T }\n\nfunc (é É) F(a, b int) { é. }\n")
      (fun file => decide (file.names.length = 12)) = true := by decide +kernel
  obtain ⟨file, parsed, shown⟩ := exists_of_checkOk evaluated
  exact ⟨file, parsed, of_decide_eq_true shown, (anchored_of_parse parsed).2⟩

end SourceFile

end GoRefactor
