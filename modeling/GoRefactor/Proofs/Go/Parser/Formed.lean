import GoRefactor.Proofs.Go.Parser.Fixed

/-!
# What declarations are made of

Some parts of a declaration go together. The path of an import is what its literal says, and an
alias has a name and a place. A field that embeds a type is named after it, other fields stand in
front of their types, and methods of an interface in front of their signatures. All of this is read
off the few functions of the parser that make such parts.
-/

namespace GoRefactor

/-- The import is what a literal of the stream says, and an alias has a name and a place. -/
structure Import.Formed (stream : TokenStream) (decl : Import) : Prop where
  /-- The path stands in a literal. -/
  path : ∃ token ∈ stream.tokens, token.kind = .literal ∧ decl.path = unquoted token.text ∧
    decl.pathSpan = token.span
  /-- An alias has a name and a place. -/
  paired : decl.aliasName.isSome = decl.aliasSpan.isSome

/-- A field that embeds a type is named after it; another one stands in front of its type. -/
structure Field.Formed (field : Field) : Prop where
  /-- The name of an embedded field. -/
  embedded : field.embedded = true → field.name = field.typeNode.baseTypeName.getD ""
  /-- The place of another field. -/
  order : field.embedded = false → field.nameSpan.start ≤ field.typeSpan.stop

/-- A method of an interface stands in front of its signature. -/
def InterfaceMethod.Formed (method : InterfaceMethod) : Prop :=
  method.nameSpan.start ≤ method.signatureSpan.stop

/-- Fields and methods are formed. -/
def TypeShape.Formed : TypeShape → Prop
  | .struct fields => ∀ field ∈ fields, field.Formed
  | .interface methods _ => ∀ method ∈ methods, method.Formed
  | .other _ => True

/-- What is declared is formed. -/
def TopDecl.Formed (stream : TokenStream) : TopDecl → Prop
  | .importing decl => decl.Formed stream
  | .type decl => decl.shape.Formed
  | _ => True

/-- All that is declared is formed. -/
def TopDecl.AllFormed (stream : TokenStream) (decls : List TopDecl) : Prop :=
  ∀ decl ∈ decls, decl.Formed stream

namespace Cursor

/-- What is ahead comes from the stream in order, and the last token ended at an offset or behind
it. -/
structure Beyond (stream : TokenStream) (low : Nat) (place : Cursor) : Prop extends
    place.Ordered, place.Along stream where
  /-- The last token ended there or later. -/
  low_le : low ≤ place.lastEnd

/-- Moving on keeps behind the offset. -/
instance stable_beyond (stream : TokenStream) (low : Nat) : Stable (Beyond stream low) where
  advance place inside :=
    ⟨Stable.advance place inside.toOrdered, Stable.advance place inside.toAlong,
      Nat.le_trans inside.low_le (inside.toOrdered.lastEnd_le_advanceBy 1)⟩

variable {stream : TokenStream} {low : Nat} {place : Cursor}

/-- The next token is one of the stream. -/
theorem Along.peekAt (inside : place.Along stream) (count : Nat) :
    place.peekAt count ∈ stream.tokens := by
  unfold Cursor.peekAt
  cases next : place.ahead[count]? with
  | none => exact inside.finish
  | some token => exact inside.ahead token (List.mem_of_getElem? next)

/-- Behind a token that was taken, the last one ended behind its start. -/
theorem Beyond.advance_of_next (inside : place.Beyond stream low)
    (proper : (place.peekAt 0).kind ≠ .finish) (goesOn : (place.peekAt 0).isTerminator = false) :
    place.advance.Beyond stream (place.peekAt 0).span.start := by
  refine ⟨Stable.advance place inside.toOrdered, Stable.advance place inside.toAlong, ?_⟩
  cases next : place.ahead with
  | nil =>
    have last : place.peekAt 0 = place.finish := by
      unfold Cursor.peekAt
      rw [next]
      rfl
    rw [last] at proper
    exact absurd inside.finishes proper
  | cons token rest =>
    have first : place.peekAt 0 = token := by
      unfold Cursor.peekAt
      rw [next]
      rfl
    rw [first] at goesOn ⊢
    rw [(inside.toOrdered.lastEnd_advance next goesOn).2]
    exact inside.order token (by rw [next]; exact List.mem_cons_self)

/-- A token that was taken stops before the end of the last one. -/
theorem Ordered.stop_le_lastEnd {place : Cursor} (ordered : place.Ordered) {count : Nat}
    {token : Token} (member : token ∈ place.ahead.take count)
    (goesOn : token.isTerminator = false) :
    token.span.stop ≤ (place.advanceBy count).lastEnd := by
  induction count generalizing place with
  | zero => simp at member
  | succ count ih =>
    cases next : place.ahead with
    | nil => simp [next] at member
    | cons first rest =>
      have behind := Stable.advance place ordered
      rw [next, List.take_succ_cons] at member
      rcases List.mem_cons.mp member with rfl | later
      · have stops := (ordered.lastEnd_advance next goesOn).2
        exact stops ▸ behind.lastEnd_le_advanceBy count
      · refine ih behind ?_
        rwa [advance_of_cons next]

end Cursor

namespace Parse

variable {α β : Type} {stream : TokenStream} {low : Nat} {post : α → Prop}

/-- From every place of the stream behind an offset the computation gives a value with a
property. -/
def Yields (stream : TokenStream) (low : Nat) (post : α → Prop) (parse : Parse α) : Prop :=
  ∀ place : Cursor, place.Beyond stream low → post (parse.run place).1

namespace Yields

/-- A value with the property is yielded. -/
theorem pure {value : α} (holds : post value) : Yields stream low post (Pure.pure value) :=
  fun _ _ => holds

/-- What follows a computation is yielded if it is for each value that the first one yields. -/
theorem bind {post : β → Prop} {middle : α → Prop} {parse : Parse α} {following : α → Parse β}
    (first : Yields stream low middle parse)
    (second : ∀ value, middle value → Yields stream low post (following value)) :
    Yields stream low post (parse >>= following) :=
  fun place inside => second _ (first place inside) _ (Cursor.Stable.run inside parse)

/-- What follows a computation is yielded if it is for every value. -/
theorem behind {post : β → Prop} {parse : Parse α} {following : α → Parse β}
    (second : ∀ value, Yields stream low post (following value)) :
    Yields stream low post (parse >>= following) :=
  bind (fun _ _ => trivial) fun value (_ : True) => second value

/-- A choice yields what both of its sides yield. -/
theorem ite {test : Prop} [Decidable test] {parse other : Parse α}
    (passes : Yields stream low post parse) (fails : Yields stream low post other) :
    Yields stream low post (if test then parse else other) := by
  split
  · exact passes
  · exact fails

/-- A token that is taken behind a test. -/
theorem taken {answer : Cursor → Bool} {following : Token → Parse α} {other : Parse α}
    {kind : TokenKind} (tells : ∀ place, answer place = true → (place.peekAt 0).kind = kind)
    (proper : kind ≠ .finish) (goesOn : kind ≠ .terminator)
    (found : ∀ token ∈ stream.tokens, token.kind = kind →
      Yields stream token.span.start post (following token))
    (missed : Yields stream low post other) :
    Yields stream low post
      (query answer >>= fun yes => if yes = true then take >>= following else other) := by
  intro place inside
  have ask : (query answer >>= fun yes => if yes = true then take >>= following else other).run
      place = (if answer place = true then take >>= following else other).run place := rfl
  rw [ask]
  by_cases yes : answer place = true
  · rw [if_pos yes]
    have named := tells place yes
    refine found _ (inside.toAlong.peekAt 0) named _ (inside.advance_of_next ?_ ?_)
    · rw [named]
      exact proper
    · unfold Token.isTerminator
      rw [named]
      exact beq_eq_false_iff_ne.mpr goesOn
  · rw [if_neg yes]
    exact missed place inside

/-- A name that is taken behind a test. -/
theorem name {test : Parse Bool} {following : Token → Parse α} {other : Parse α}
    (tells : TellsName test)
    (found : ∀ token, Yields stream token.span.start post (following token))
    (missed : Yields stream low post other) :
    Yields stream low post
      (test >>= fun yes => if yes = true then take >>= following else other) := by
  obtain ⟨answer, rfl, told⟩ := tells
  exact taken told (by decide) (by decide) (fun token _ _ => found token) missed

/-- A span up to here ends behind the offset. -/
theorem spanFrom {start : Nat} {following : Span → Parse α}
    (second : ∀ span, low ≤ span.stop → Yields stream low post (following span)) :
    Yields stream low post (Parse.spanFrom start >>= following) := by
  intro place inside
  refine second (Span.upTo start place.lastEnd) ?_ place inside
  exact Nat.le_trans inside.low_le (Nat.le_max_left _ _)

end Yields

/-- Names behind commas are some of the tokens that they take. -/
theorem furtherNames_sublist (tokens : List Token) :
    (furtherNames tokens).1.Sublist (tokens.take (furtherNames tokens).2) ∧
      ∀ token ∈ (furtherNames tokens).1, token.kind = .identifier := by
  fun_induction furtherNames tokens with
  | case1 => simp
  | case2 => simp
  | case3 comma _ token more named names count found ih =>
    have named := eq_of_beq named
    rw [found] at ih
    exact ⟨(ih.1.cons_cons token).cons comma, List.forall_mem_cons.mpr ⟨named, ih.2⟩⟩
  | case4 comma _ token more _ names count found ih =>
    rw [found] at ih
    exact ⟨ih.1.cons comma, ih.2⟩
  | case5 => simp

/-- Names behind commas are taken up to the last of them. -/
theorem Yields.moreNames {following : List Token → Parse α}
    (second : ∀ tokens low', low ≤ low' → (∀ token ∈ tokens, token.span.start ≤ low') →
      Yields stream low' post (following tokens)) :
    Yields stream low post (Parse.moreNames >>= following) := by
  intro place inside
  have ordered := inside.toOrdered
  have reached : (place.advanceBy (furtherNames place.ahead).2).Beyond stream low :=
    Cursor.Stable.advanceBy inside _
  refine second (furtherNames place.ahead).1
    (place.advanceBy (furtherNames place.ahead).2).lastEnd reached.low_le ?_ _
    ⟨reached.toOrdered, reached.toAlong, Nat.le_refl _⟩
  intro token member
  obtain ⟨among, named⟩ := furtherNames_sublist place.ahead
  have held := among.subset member
  refine Nat.le_trans (ordered.order token (List.mem_of_mem_take held)) ?_
  refine ordered.stop_le_lastEnd held ?_
  unfold Token.isTerminator
  rw [named token member]
  rfl

/-- The fields of one line of a struct are formed. -/
theorem yields_fieldLine (fuel : Nat) (doc : Option String) :
    Yields stream low (fun fields => ∀ field ∈ fields, field.Formed) (fieldLine fuel doc) := by
  cases fuel with
  | zero => exact .pure (List.forall_mem_nil _)
  | succ fuel =>
    simp only [Parse.fieldLine]
    refine .name tellsName_fieldIsNamed (fun first => .moreNames fun others low' after starts =>
      .behind fun start => .behind fun typeNode => .spanFrom fun typeSpan ends => .pure ?_) ?_
    · have formed {token : Token} (starts : token.span.start ≤ low') :
          (Field.mk token.text token.span typeSpan typeNode false doc).Formed :=
        ⟨fun embeds => absurd embeds Bool.false_ne_true, fun _ => Nat.le_trans starts ends⟩
      rw [List.forall_mem_map, List.forall_mem_cons]
      exact ⟨formed after, fun token member => formed (starts token member)⟩
    · refine .behind fun start => .behind fun typeNode => .behind fun typeSpan => .pure ?_
      unfold Field.embedding
      split
      · exact List.forall_mem_nil _
      · exact List.forall_mem_singleton.mpr
          ⟨fun _ => rfl, fun plain => absurd plain.symm Bool.false_ne_true⟩

/-- The fields of a struct are formed. -/
theorem yields_fieldLines (fuel : Nat) :
    Yields stream low (fun fields => ∀ field ∈ fields, field.Formed) (fieldLines fuel) := by
  induction fuel with
  | zero => exact .pure (List.forall_mem_nil _)
  | succ fuel ih =>
    simp only [Parse.fieldLines]
    refine .behind fun _ => .behind fun _ => .behind fun _ =>
      .ite (.pure (List.forall_mem_nil _)) ?_
    refine .behind fun _ => .behind fun doc => .bind (yields_fieldLine fuel doc)
      fun fields formed => .behind fun _ => ?_
    have rest : Yields stream low (fun fields => ∀ field ∈ fields, field.Formed)
        (fieldLines fuel >>= fun others => Pure.pure (fields ++ others)) :=
      .bind ih fun others more => .pure (List.forall_mem_append.mpr ⟨formed, more⟩)
    exact .ite (.behind fun _ => .behind fun _ => rest) (.behind fun _ => rest)

/-- The methods of an interface are formed. -/
theorem yields_interfaceLines (fuel : Nat) :
    Yields stream low (fun body => ∀ method ∈ body.1, method.Formed) (interfaceLines fuel) := by
  induction fuel generalizing low with
  | zero => exact .pure (List.forall_mem_nil _)
  | succ fuel ih =>
    simp only [Parse.interfaceLines]
    refine .behind fun _ => .behind fun _ => .behind fun _ =>
      .ite (.pure (List.forall_mem_nil _)) (.behind fun _ => ?_)
    refine .name tellsName_methodFollows (fun name => ?_) ?_
    · refine .behind fun _ => .behind fun _ => .behind fun _ => .spanFrom fun _ ends =>
        .behind fun _ => .bind ih fun _ formed => .pure ?_
      exact List.forall_mem_cons.mpr ⟨ends, formed⟩
    · exact .behind fun _ => .behind fun _ => .bind ih fun _ formed => .pure formed

/-- The shape of a declared type is formed. -/
theorem yields_typeShape (limit : Nat) :
    Yields stream low TypeShape.Formed (typeShape limit) := by
  have fields : Yields stream low (fun fields => ∀ field ∈ fields, field.Formed)
      (structFields limit) := by
    cases limit with
    | zero => exact .pure (List.forall_mem_nil _)
    | succ limit =>
      simp only [Parse.structFields]
      exact .behind fun _ => .ite (yields_fieldLines limit) (.pure (List.forall_mem_nil _))
  have methods : Yields stream low (fun body => ∀ method ∈ body.1, method.Formed)
      (interfaceBody limit) := by
    cases limit with
    | zero => exact .pure (List.forall_mem_nil _)
    | succ limit =>
      simp only [Parse.interfaceBody]
      exact .behind fun _ => .ite (yields_interfaceLines limit) (.pure (List.forall_mem_nil _))
  unfold typeShape
  refine .behind fun _ => .ite (.bind fields fun _ formed => .pure formed) ?_
  refine .behind fun _ => .ite (.bind methods fun _ formed => .pure formed) ?_
  exact .behind fun _ => .pure trivial

/-- An imported package is formed. -/
theorem yields_importSpec :
    Yields stream low (TopDecl.AllFormed stream) importSpec := by
  unfold importSpec
  refine .behind fun aliasToken => ?_
  refine .taken (fun _ yes => eq_of_beq yes) (by decide) (by decide) (fun path member literal => ?_)
    (.behind fun _ => .pure (List.forall_mem_nil _))
  refine .pure (List.forall_mem_singleton.mpr ⟨⟨path, member, literal, rfl, rfl⟩, ?_⟩)
  rw [Option.isSome_map, Option.isSome_map]

variable {each : α → Prop}

/-- A group yields only what its specifications yield. -/
theorem yields_groupRounds {spec : Option String → Parse (List α)}
    (yields : ∀ doc, Yields stream low (fun decls => ∀ decl ∈ decls, each decl) (spec doc))
    (rounds : Nat) :
    Yields stream low (fun decls => ∀ decl ∈ decls, each decl) (groupRounds spec rounds) := by
  induction rounds with
  | zero => exact .pure (List.forall_mem_nil _)
  | succ rounds ih =>
    simp only [groupRounds]
    refine .behind fun _ => .behind fun _ => .behind fun _ =>
      .ite (.pure (List.forall_mem_nil _)) ?_
    exact .behind fun _ => .behind fun doc => .bind (yields doc) fun _ formed => .behind fun _ =>
      .bind ih fun _ more => .pure (List.forall_mem_append.mpr ⟨formed, more⟩)

/-- One specification or a group of them yields only what each specification yields. -/
theorem yields_grouped {spec : Option String → Parse (List α)} {limit : Nat}
    (yields : ∀ doc, Yields stream low (fun decls => ∀ decl ∈ decls, each decl) (spec doc)) :
    Yields stream low (fun decls => ∀ decl ∈ decls, each decl) (grouped limit spec) := by
  unfold grouped
  exact .behind fun doc => .behind fun _ => .behind fun _ =>
    .ite (yields_groupRounds yields limit) (yields doc)

section Declarations

variable {each : TopDecl → Prop} {limit : Nat}

/-- The specification of a type yields only what the shape of the type allows. -/
theorem yields_typeSpec
    (shapes : Yields stream low
      (fun shape => ∀ decl : TypeDecl, decl.shape = shape → each (.type decl)) (typeShape limit))
    (inGroup : Bool) (start : Nat) (doc : Option String) :
    Yields stream low (fun decls => ∀ decl ∈ decls, each decl)
      (typeSpec limit inGroup start doc) := by
  have rest (name : Token) (start : Nat) :
      Yields stream low (fun decls => ∀ decl ∈ decls, each decl) (do
        skip "="
        let shape ← typeShape limit
        let extent ← Parse.spanFrom start
        return [.type ⟨name.text, name.span, extent, shape, doc⟩]) :=
    .behind fun _ => .bind shapes fun _ allows => .behind fun _ =>
      .pure (List.forall_mem_singleton.mpr (allows _ rfl))
  unfold typeSpec
  refine .behind fun start => .behind fun _ => .ite ?_
    (.behind fun _ => .pure (List.forall_mem_nil _))
  exact .behind fun name => .behind fun _ =>
    .ite (.behind fun _ => rest name start) (rest name start)

/-- What starts at one token yields only what declarations of its kind may be. -/
theorem yields_topLevel
    (imports : Yields stream low (fun decls => ∀ decl ∈ decls, each decl) importSpec)
    (shapes : Yields stream low
      (fun shape => ∀ decl : TypeDecl, decl.shape = shape → each (.type decl)) (typeShape limit))
    (functions : Yields stream low (fun decls => ∀ decl ∈ decls, each decl) (funcDecl limit))
    (values : ∀ inGroup start doc,
      Yields stream low (fun decls => ∀ decl ∈ decls, each (.var decl) ∧ each (.const decl))
        (valueSpec limit inGroup start doc)) :
    Yields stream low (fun decls => ∀ decl ∈ decls, each decl) (topLevel limit) := by
  have made (make : ValueDecl → TopDecl)
      (holds : ∀ {decl}, each (.var decl) ∧ each (.const decl) → each (make decl))
      (inGroup : Bool) (start : Nat) :
      Yields stream low (fun decls => ∀ decl ∈ decls, each decl)
        (List.map make <$> grouped limit (valueSpec limit inGroup start)) :=
    .bind (yields_grouped fun doc => values inGroup start doc) fun _ both =>
      .pure (List.forall_mem_map.mpr fun decl member => holds (both decl member))
  unfold topLevel
  refine .behind fun inGroup => .behind fun start => ?_
  refine .behind fun _ => .ite (yields_grouped fun _ => imports) ?_
  refine .behind fun _ =>
    .ite (yields_grouped fun doc => yields_typeSpec shapes inGroup start doc) ?_
  refine .behind fun _ => .ite functions ?_
  refine .behind fun _ => .ite (made .var And.left inGroup start) ?_
  refine .behind fun _ => .ite (made .const And.right inGroup start) ?_
  exact .behind fun _ => .pure (List.forall_mem_nil _)

/-- A text yields only what its declarations yield, each from where it starts. -/
theorem yields_declarations
    (yields : Yields stream low (fun decls => ∀ decl ∈ decls, each decl) (topLevel limit))
    (rounds : Nat) :
    Yields stream low (fun decls => ∀ decl ∈ decls, each decl) (declarations limit rounds) := by
  induction rounds with
  | zero => exact .pure (List.forall_mem_nil _)
  | succ rounds ih =>
    simp only [declarations]
    refine .behind fun _ => .behind fun _ => .ite (.pure (List.forall_mem_nil _)) ?_
    exact .behind fun _ => .bind yields fun _ here => .behind fun _ =>
      .bind ih fun _ more => .pure (List.forall_mem_append.mpr ⟨here, more⟩)

end Declarations

/-- A function is formed whatever its parts are. -/
theorem yields_funcDecl (limit : Nat) :
    Yields stream low (TopDecl.AllFormed stream) (funcDecl limit) := by
  have rest (doc : Option String) (keyword name : Token) (receiver : Option Param) :
      Yields stream low (TopDecl.AllFormed stream) (do
        let start ← nextStart
        let params ← params limit
        let results ← results limit
        let signatureSpan ← Parse.spanFrom start
        let body ← funcBody limit
        let extent ← Parse.spanFrom keyword.span.start
        return [.function ⟨name.text, name.span, extent, receiver, params, results,
          signatureSpan, body, doc⟩]) :=
    .behind fun _ => .behind fun _ => .behind fun _ => .behind fun _ => .behind fun _ =>
      .behind fun _ => .pure (List.forall_mem_singleton.mpr trivial)
  unfold funcDecl
  refine .behind fun doc => .behind fun keyword => .behind fun receiver =>
    .behind fun _ => .ite ?_ (.behind fun _ => .pure (List.forall_mem_nil _))
  exact .behind fun name => .behind fun _ => .ite
    (.behind fun _ => rest doc keyword name receiver) (rest doc keyword name receiver)

/-- All declarations of a text are formed. -/
theorem yields_formed (limit rounds : Nat) :
    Yields stream low (TopDecl.AllFormed stream) (declarations limit rounds) := by
  have shapes : Yields stream low
      (fun shape => ∀ decl : TypeDecl, decl.shape = shape → TopDecl.Formed stream (.type decl))
      (typeShape limit) := by
    intro place inside decl same
    change decl.shape.Formed
    rw [same]
    exact yields_typeShape limit place inside
  exact yields_declarations (yields_topLevel yields_importSpec shapes (yields_funcDecl limit)
    fun _ _ _ _ _ _ _ => ⟨trivial, trivial⟩) rounds

end Parse

namespace SourceFile

/-- Imports and declared types are formed. -/
structure Formed (stream : TokenStream) (file : SourceFile) : Prop where
  /-- Imports. -/
  imports : ∀ decl ∈ file.imports, decl.Formed stream
  /-- Types. -/
  types : ∀ decl ∈ file.types.values, decl.shape.Formed

/-- **What a scan declares is formed.** -/
theorem formed_of_parse {path content : String} {file : SourceFile} {stream : TokenStream}
    (parsed : SourceFile.parse path content = .ok file)
    (scanned : TokenStream.ofChars? content.toList = .ok stream) : file.Formed stream := by
  obtain ⟨name, decls, found, rfl⟩ := decls_of_parse parsed scanned
  obtain ⟨-, -, place, limit, ordered, inside, -, rfl⟩ := TokenStream.place_of_parse scanned found
  have each : TopDecl.AllFormed stream ((Parse.declarations limit limit).run place).1 :=
    Parse.yields_formed limit limit place ⟨ordered, inside, Nat.zero_le _⟩
  refine ⟨fun decl member => ?_, fun decl member => ?_⟩
  · rcases mem_imports_foldl_add member with none | declared
    · cases none
    · exact each _ declared
  · have inside : TopDecl.type decl ∈ (List.foldl SourceFile.add _ _).decls :=
      List.mem_append_left _ (List.mem_append_left _ (List.mem_map_of_mem member))
    rcases List.mem_append.mp ((decls_foldl_add _ _).subset inside) with declared | none
    · obtain ⟨given, held, same⟩ := List.mem_map.mp declared
      cases given with
      | type other =>
        cases same
        exact each _ held
      | importing => cases same
      | function => cases same
      | var => cases same
      | const => cases same
    · cases none

end SourceFile

end GoRefactor
