import GoRefactor.Proofs.Go.Parser.Reading

/-!
# The parser beside itself

Every function of the parser is related to itself, in every reading. The functions call each other,
so this is proved of all of them together, by induction on the depth of calls; each step follows how
the function is put together. Where the depth matters, a function with more of it is beside one
with less, and there is room at the place for the calls that it makes.
-/

namespace GoRefactor

namespace Parse

variable {R : Reading} {depth deeper : Nat}

/-- All functions of the parser, down to a depth of calls, are beside those down to another. -/
structure Reading.Family (R : Reading) (depth deeper : Nat) : Prop where
  type : R.Reads (R.Fits depth 1) R.TypeTree (type depth) (type deeper)
  typeArgs : R.Reads (R.Fits depth 2) (Row R.Tree) (typeArgs depth) (typeArgs deeper)
  params : R.Reads (R.Fits depth 1) R.Params (params depth) (params deeper)
  paramEntries : R.Reads (R.Fits depth 2) (Row R.Entry) (paramEntries depth) (paramEntries deeper)
  results : R.Reads (R.Fits depth 2) R.Params (results depth) (results deeper)
  structFields : R.Reads (R.Fits depth 1) R.Fields (structFields depth) (structFields deeper)
  fieldLines : R.Reads (R.Fits depth 3) R.Fields (fieldLines depth) (fieldLines deeper)
  fieldLine : ∀ doc, R.Reads (R.Fits depth 2) R.Fields (fieldLine depth doc) (fieldLine deeper doc)
  interfaceBody :
    R.Reads (R.Fits depth 1) R.Interface (interfaceBody depth) (interfaceBody deeper)
  interfaceLines :
    R.Reads (R.Fits depth 3) R.Interface (interfaceLines depth) (interfaceLines deeper)
  typeUnion : R.Reads (R.Fits depth 2) (Row R.Tree) (typeUnion depth) (typeUnion deeper)
  exprList : ∀ bare,
    R.Reads (R.Fits depth 6) (Row R.Tree) (exprList depth bare) (exprList deeper bare)
  expr : ∀ bare, R.Reads (R.Fits depth 5) R.Tree (expr depth bare) (expr deeper bare)
  exprTail : ∀ bare {low place node image}, low ≤ place → R.Tree low place node image →
    R.Rel (R.Fits depth 1) place (R.Tree low) (exprTail depth bare node)
      (exprTail deeper bare image)
  unary : ∀ bare, R.Reads (R.Fits depth 4) R.Tree (Parse.unary depth bare) (Parse.unary deeper bare)
  primary : ∀ bare, R.Reads (R.Fits depth 3) R.Tree (primary depth bare) (primary deeper bare)
  operand : R.Reads (R.Fits depth 2) R.Tree (operand depth) (operand deeper)
  primaryTail : ∀ bare {low place node image}, low ≤ place → R.Tree low place node image →
    R.Rel (R.Fits depth 1) place (R.Tree low) (primaryTail depth bare node)
      (primaryTail deeper bare image)
  funcExpr : R.Reads (R.Inside depth 1) R.Tree (funcExpr depth) (funcExpr deeper)
  callArgs : R.Reads (R.Fits depth 6) (Row R.Tree) (callArgs depth) (callArgs deeper)
  indices : R.Reads (R.Fits depth 6) (Row R.Tree) (indices depth) (indices deeper)
  elements : R.Reads (R.Fits depth 7) (Row R.Tree) (elements depth) (elements deeper)
  element : R.Reads (R.Fits depth 6) R.Tree (element depth) (element deeper)
  block : R.Reads (R.Inside depth 1) R.Tree (Parse.block depth) (Parse.block deeper)
  statements : R.Reads (R.Fits depth 9) (Row R.Stmt) (statements depth) (statements deeper)
  statement : R.Reads (R.Fits depth 8) (Optional R.Stmt) (statement depth) (statement deeper)
  simpleStatement : ∀ bare,
    R.Reads (R.Fits depth 7) R.Stmt (simpleStatement depth bare) (simpleStatement deeper bare)
  rightSide : ∀ bare,
    R.Reads (R.Fits depth 7) (Row R.Tree) (rightSide depth bare) (rightSide deeper bare)
  localValues : R.Reads (R.Inside depth 1) R.Stmt (localValues depth) (localValues deeper)
  localValueGroup :
    R.Reads (R.Fits depth 3) (Row R.Stmt) (localValueGroup depth) (localValueGroup deeper)
  localValueSpec : R.Reads (R.Fits depth 2) R.Stmt (localValueSpec depth) (localValueSpec deeper)
  localTypes : R.Reads (R.Inside depth 1) R.Stmt (localTypes depth) (localTypes deeper)
  localTypeSpecs : ∀ grouped, R.Reads (R.Fits depth 1) (Row R.Stmt) (localTypeSpecs depth grouped)
    (localTypeSpecs deeper grouped)
  ifStatement : R.Reads (R.Inside depth 1) R.Stmt (ifStatement depth) (ifStatement deeper)
  forStatement : R.Reads (R.Inside depth 1) R.Stmt (forStatement depth) (forStatement deeper)
  forHeader : R.Reads (R.Fits depth 9) (Row R.Stmt) (forHeader depth) (forHeader deeper)
  forClause : R.Reads (R.Fits depth 8) R.Stmt (forClause depth) (forClause deeper)
  switchStatement :
    R.Reads (R.Inside depth 1) R.Stmt (switchStatement depth) (switchStatement deeper)
  header : R.Reads (R.Fits depth 8) (Row R.Stmt) (header depth) (header deeper)
  body : R.Reads (R.Fits depth 2) R.Stmt (body depth) (body deeper)

namespace Reading.Family

/-- Types are related as expressions. -/
theorem typeNode (family : R.Family depth deeper) :
    R.Reads (R.Fits depth 1) R.Tree (Parse.type depth) (Parse.type deeper) := fun low _ after =>
  .weaken (family.type low after) fun _ type => R.typeTree type

section Types

theorem type_succ (ih : R.Family depth deeper) :
    R.Reads (R.Fits (depth + 1) 1) R.TypeTree (Parse.type (depth + 1))
      (Parse.type (deeper + 1)) := by
  have type := ih.type.low (by decide : 1 ≤ 9)
  have node := ih.typeNode.low (by decide : 1 ≤ 9)
  -- What follows the length of an array, and what follows the name of a type.
  have array {low place : Nat} {length length' : Node} (after : low ≤ place)
      (given : R.Tree low place length length') :
      R.Rel (R.Fits depth 9) place (R.TypeTree low)
        (do
          Parse.skip "]"
          let elem ← Parse.type depth
          pure (Node.typeExpr .array [length, elem]))
        (do
          Parse.skip "]"
          let elem ← Parse.type deeper
          pure (Node.typeExpr .array [length', elem])) :=
    .skip fun order => .bind (node _ order) fun _ elem =>
      .pure (R.typeExpr _ (.cons given (.single elem)))
  have applied {low place : Nat} {named named' : Node} (after : low ≤ place)
      (given : R.TypeTree low place named named') :
      R.Rel (R.Fits depth 9) place (R.TypeTree low)
        (do
          if ← Parse.typeArgsFollow then
            let _ ← Parse.take
            pure (Node.index named (← Parse.typeArgs depth))
          else pure named)
        (do
          if ← Parse.typeArgsFollow then
            let _ ← Parse.take
            pure (Node.index named' (← Parse.typeArgs deeper))
          else pure named') :=
    .when .typeArgsFollow
      (fun _ => .bind .mark fun _ _ => .bind (ih.typeArgs.low (by decide) _ (by omega))
        fun _ args => .pure (R.applied given args))
      fun order => .pure (R.typeUpTo given order)
  refine Steps.Reads.call fun low place after => ?_
  simp only [Parse.type]
  refine .test (.is _) (sees_is _) ?pointer ?_
  case pointer =>
    exact .take fun _ _ => .bind (type _ (by omega)) fun _ inner => .pure (R.pointer inner)
  refine .test (.is _) (sees_is _) ?group ?_
  case group =>
    exact .take fun _ _ => .bind (type _ (by omega)) fun _ inner => .skip fun order =>
      .pure (R.typeUpTo inner order)
  refine .test (.is _) (sees_is _) ?bracket ?_
  case bracket =>
    refine .take fun _ opening => .eat (fun _ => ?_) (.eat (fun _ => ?_) ?_)
    · exact .bind (node _ (by omega)) fun _ elem => .pure (R.typeExpr _ (.single elem))
    · exact array (by omega) (R.typeTree (R.literal (by omega) (R.markSpan opening)))
    · exact .bind ((ih.expr _).low (by decide) _ (by omega)) fun _ length =>
        array (by omega) length
  refine .test (.is _) (sees_is _) ?variadic ?_
  case variadic =>
    exact .take fun _ _ => .bind (node _ (by omega)) fun _ elem =>
      .pure (R.typeExpr _ (.single elem))
  refine .test (.is _) (sees_is _) ?receiving ?_
  case receiving =>
    exact .take fun _ _ => .skip fun _ => .bind (node _ (by omega)) fun _ elem =>
      .pure (R.typeExpr _ (.single elem))
  refine .test (.is _) (sees_is _) ?map ?_
  case map =>
    exact .take fun _ _ => .skip fun _ => .bind (node _ (by omega)) fun _ key => .skip fun order =>
      .bind (node _ order) fun _ value => .pure (R.typeExpr _ (.cons key (.single value)))
  refine .test (.is _) (sees_is _) ?chan ?_
  case chan =>
    exact .take fun _ _ => .skip fun _ => .bind (node _ (by omega)) fun _ elem =>
      .pure (R.typeExpr _ (.single elem))
  refine .test (.is _) (sees_is _) ?func ?_
  case func =>
    exact .take fun _ _ => .bind (ih.params.low (by decide) _ (by omega)) fun _ takes =>
      .bind (ih.results.low (by decide) _ (Nat.le_refl _)) fun _ gives =>
        .pure (R.funcType takes gives)
  refine .test (.is _) (sees_is _) ?struct ?_
  case struct =>
    exact .take fun _ _ => .bind (ih.structFields.low (by decide) _ (by omega)) fun _ fields =>
      .pure (R.structType fields)
  refine .test (.is _) (sees_is _) ?interface ?_
  case interface =>
    exact .take fun _ _ => .bind (ih.interfaceBody.low (by decide) _ (by omega)) fun _ lines =>
      .pure (R.interfaceType lines)
  refine .nameAhead (.isKind _) tellsName_isKind (fun order first => ?_) ?_
  · refine .selector (fun further name => ?_) ?_
    · exact applied (by omega) (R.qualified (R.nameFrom after first) name)
    · exact applied (by omega) (R.named (R.nameFrom after first))
  exact .when .endsType
    (fun order => .bind R.nextSpan fun _ span => .pure (R.literal (by omega) span))
    fun order => .bind .mark fun _ token => .pure (R.literal (by omega) (R.markSpan token))

theorem typeArgs_succ (ih : R.Family depth deeper) :
    R.Reads (R.Fits (depth + 1) 2) (Row R.Tree) (Parse.typeArgs (depth + 1))
      (Parse.typeArgs (deeper + 1)) := by
  refine Steps.Reads.call fun low place after => ?_
  simp only [Parse.typeArgs]
  refine .untilEaten (fun _ => .pure (.nil (by omega))) (.round fun counts => ?_)
  refine .bind (ih.typeNode.inLoop (by decide) (by decide) _ after) fun _ arg =>
    .skip fun order => .moved counts fun _ => ?_
  exact .bind (ih.typeArgs.low (by decide) _ (by omega)) fun _ others => .pure (.cons arg others)

theorem params_succ (ih : R.Family depth deeper) :
    R.Reads (R.Fits (depth + 1) 1) R.Params (Parse.params (depth + 1))
      (Parse.params (deeper + 1)) := by
  refine Steps.Reads.call fun low place after => ?_
  simp only [Parse.params]
  exact .eat (fun _ => .bind (ih.paramEntries.low (by decide) _ (by omega)) fun _ entries =>
    .pure (R.paramsOf entries)) (.pure (R.noParams after))

theorem paramEntries_succ (ih : R.Family depth deeper) :
    R.Reads (R.Fits (depth + 1) 2) (Row R.Entry) (Parse.paramEntries (depth + 1))
      (Parse.paramEntries (deeper + 1)) := by
  refine Steps.Reads.call fun low place after => ?_
  simp only [Parse.paramEntries]
  refine .same .skipTerminators fun _ =>
    .untilEaten (fun _ => .pure (.nil (by omega))) (.round fun counts => ?_)
  refine .bind (.mayName .paramIsNamed tellsName_paramIsNamed) fun _ name =>
    .bind R.nextStart fun _ start =>
    .bind (ih.typeNode.inLoop (by decide) (by decide) low (by omega)) fun _ type =>
    .bind (R.spanFrom start) fun _ span => .skip fun _ => .moved counts fun _ => ?_
  exact .bind (ih.paramEntries.low (by decide) _ (by omega)) fun _ others =>
    .pure (.cons ⟨name, span, type⟩ others)

theorem results_succ (ih : R.Family depth deeper) :
    R.Reads (R.Fits (depth + 1) 2) R.Params (Parse.results (depth + 1))
      (Parse.results (deeper + 1)) := by
  refine Steps.Reads.call fun low place after => ?_
  simp only [Parse.results]
  refine .when (.is _) (fun _ => ih.params _ (by omega)) fun _ => .when .startsType (fun _ => ?_)
    fun _ => .pure (R.noParams (by omega))
  exact .bind R.nextStart fun _ start => .bind (ih.typeNode _ (by omega)) fun _ type =>
    .bind (R.spanFrom start) fun order span => .pure (R.bareParam span (R.treeUpTo type order))

theorem structFields_succ (ih : R.Family depth deeper) :
    R.Reads (R.Fits (depth + 1) 1) R.Fields (Parse.structFields (depth + 1))
      (Parse.structFields (deeper + 1)) := by
  refine Steps.Reads.call fun low place after => ?_
  simp only [Parse.structFields]
  exact .eat (fun _ => ih.fieldLines.low (by decide) _ (by omega)) (.pure (R.noFields after))

theorem fieldLines_succ (ih : R.Family depth deeper) :
    R.Reads (R.Fits (depth + 1) 3) R.Fields (Parse.fieldLines (depth + 1))
      (Parse.fieldLines (deeper + 1)) := by
  refine Steps.Reads.call fun low place after => ?_
  simp only [Parse.fieldLines]
  refine .same .skipTerminators fun _ =>
    .untilEaten (fun _ => .pure (R.noFields (by omega))) (.round fun counts => ?_)
  refine .same .docHere fun {_ doc} _ =>
    .bind ((ih.fieldLine doc).inLoop (by decide) (by decide) low (by omega))
      fun {stop _ _} _ fields => ?_
  have others {place : Nat} (order : stop ≤ place) :=
    Steps.Rel.bind (ih.fieldLines.low (by decide : 3 ≤ 9) _ order) fun _ others =>
      Steps.Rel.pure (R.fieldsBehind fields others)
  exact .when (.isKind _)
    (fun _ => .bind .mark fun _ _ => .moved counts fun _ => others (by omega))
    fun _ => .moved counts fun _ => others (by omega)

theorem fieldLine_succ (ih : R.Family depth deeper) (doc : Option String) :
    R.Reads (R.Fits (depth + 1) 2) R.Fields (Parse.fieldLine (depth + 1) doc)
      (Parse.fieldLine (deeper + 1) doc) := by
  refine Steps.Reads.call fun low place after => ?_
  simp only [Parse.fieldLine]
  refine .name .fieldIsNamed tellsName_fieldIsNamed (fun _ first => ?_) ?_
  · exact .bind R.moreNames fun _ others => .bind R.nextStart fun _ start =>
      .bind (ih.typeNode _ (by omega)) fun _ type => .bind (R.spanFrom start) fun order span =>
        .pure (R.fieldsNamed doc (.cons (R.spelled first) others) span (R.treeUpTo type order))
  · exact .bind R.nextStart fun _ start => .bind (ih.type _ (by omega)) fun _ type =>
      .bind (R.spanFrom start) fun order span =>
        .pure (R.embedding doc (R.typeUpTo type order) span)

theorem interfaceBody_succ (ih : R.Family depth deeper) :
    R.Reads (R.Fits (depth + 1) 1) R.Interface (Parse.interfaceBody (depth + 1))
      (Parse.interfaceBody (deeper + 1)) := by
  refine Steps.Reads.call fun low place after => ?_
  simp only [Parse.interfaceBody]
  exact .eat (fun _ => ih.interfaceLines.low (by decide) _ (by omega)) (.pure (R.noLines after))

theorem interfaceLines_succ (ih : R.Family depth deeper) :
    R.Reads (R.Fits (depth + 1) 3) R.Interface (Parse.interfaceLines (depth + 1))
      (Parse.interfaceLines (deeper + 1)) := by
  refine Steps.Reads.call fun low place after => ?_
  simp only [Parse.interfaceLines]
  refine .same .skipTerminators fun _ =>
    .untilEaten (fun _ => .pure (R.noLines (by omega))) (.round fun counts => ?_)
  have others := ih.interfaceLines.low (by decide : 3 ≤ 9)
  refine .name .methodFollows tellsName_methodFollows (fun _ name => ?_) ?_
  · refine .bind R.nextStart fun _ start =>
      .bind (ih.params.inLoop (by decide) (by decide) low (by omega)) fun _ takes =>
      .bind (ih.results.inLoop (by decide) (by decide) _ (Nat.le_refl _)) fun _ gives =>
      .bind (R.spanFrom start) fun _ span => .moved counts fun _ => ?_
    exact .bind (others _ (by omega)) fun _ lines =>
      .pure (R.method (R.spelled name) span takes gives lines)
  · exact .bind (ih.typeUnion.inLoop (by decide) (by decide) _ (by omega)) fun _ union =>
      .moved counts fun _ => .bind (others _ (by omega)) fun _ lines =>
        .pure (R.embeds union lines)

theorem typeUnion_succ (ih : R.Family depth deeper) :
    R.Reads (R.Fits (depth + 1) 2) (Row R.Tree) (Parse.typeUnion (depth + 1))
      (Parse.typeUnion (deeper + 1)) := by
  refine Steps.Reads.call fun low place after => ?_
  simp only [Parse.typeUnion]
  exact .skip fun _ => .bind (ih.typeNode.low (by decide) _ (by omega)) fun _ member =>
    .eat (fun order => .bind (ih.typeUnion.low (by decide) _ order) fun _ others =>
      .pure (.cons member others)) (.pure (.single member))

end Types

section Expressions

theorem exprList_succ (ih : R.Family depth deeper) (bare : Bool) :
    R.Reads (R.Fits (depth + 1) 6) (Row R.Tree) (Parse.exprList (depth + 1) bare)
      (Parse.exprList (deeper + 1) bare) := by
  refine Steps.Reads.call fun low place after => ?_
  simp only [Parse.exprList]
  refine .bind (ih.expr bare _ after) fun _ first => .eat (fun _ => ?_) (.pure (.single first))
  exact .when .endsStatement (fun _ => .pure (.single (R.treeUpTo first (by omega)))) fun _ =>
    .bind ((ih.exprList bare).low (by decide) _ (by omega)) fun _ others =>
      .pure (.cons first others)

theorem expr_succ (ih : R.Family depth deeper) (bare : Bool) :
    R.Reads (R.Fits (depth + 1) 5) R.Tree (Parse.expr (depth + 1) bare)
      (Parse.expr (deeper + 1) bare) := by
  refine Steps.Reads.call fun low place after => ?_
  simp only [Parse.expr]
  exact .bind (ih.unary bare _ after) fun _ left =>
    (ih.exprTail bare (by omega) left).low (by decide)

theorem exprTail_succ (ih : R.Family depth deeper) (bare : Bool) {low place : Nat}
    {node image : Node} (after : low ≤ place) (left : R.Tree low place node image) :
    R.Rel (R.Fits (depth + 1) 1) place (R.Tree low) (Parse.exprTail (depth + 1) bare node)
      (Parse.exprTail (deeper + 1) bare image) := by
  refine .call ?_
  simp only [Parse.exprTail]
  refine .test (.isAny _) (sees_isAny _) (.take fun order _ => ?_) (.pure left)
  exact .bind ((ih.unary bare).low (by decide) _ order) fun _ right =>
    (ih.exprTail bare (by omega) (R.binary left right)).low (by decide)

theorem unary_succ (ih : R.Family depth deeper) (bare : Bool) :
    R.Reads (R.Fits (depth + 1) 4) R.Tree (Parse.unary (depth + 1) bare)
      (Parse.unary (deeper + 1) bare) := by
  refine Steps.Reads.call fun low place after => ?_
  simp only [Parse.unary]
  refine .operator (fun op => .take fun _ _ => ?_) (ih.primary bare _ after)
  exact .bind ((ih.unary bare).low (by decide) _ (by omega)) fun _ operand =>
    .pure (R.unary op operand)

theorem primary_succ (ih : R.Family depth deeper) (bare : Bool) :
    R.Reads (R.Fits (depth + 1) 3) R.Tree (Parse.primary (depth + 1) bare)
      (Parse.primary (deeper + 1) bare) := by
  refine Steps.Reads.call fun low place after => ?_
  simp only [Parse.primary]
  exact .bind (ih.operand.low (by decide) _ after) fun _ operand =>
    (ih.primaryTail bare (by omega) operand).low (by decide)

theorem operand_succ (ih : R.Family depth deeper) :
    R.Reads (R.Fits (depth + 1) 2) R.Tree (Parse.operand (depth + 1))
      (Parse.operand (deeper + 1)) := by
  refine Steps.Reads.call fun low place after => ?_
  have literal {stop : Nat} {span span' : Span} (order : low ≤ stop) (stands : R.Place span span') :
      R.Tree low stop (.literal span) (.literal span') := R.typeTree (R.literal order stands)
  simp only [Parse.operand]
  refine .name (.isKind _) tellsName_isKind
    (fun _ name => .pure (R.typeTree (R.named (R.nameFrom after name)))) ?_
  refine .when (.isKind _)
    (fun _ => .bind .mark fun _ token => .pure (literal (by omega) (R.markSpan token)))
    fun _ => ?_
  refine .test (.is _) (sees_is _) ?group ?_
  case group =>
    exact .take fun _ _ => .bind ((ih.expr _).low (by decide) _ (by omega)) fun _ inner =>
      .same .skipTerminators fun _ => .skip fun _ => .pure (R.treeUpTo inner (by omega))
  refine .test (.is _) (sees_is _) (ih.funcExpr.lowInside (by decide) _ (by omega)) ?_
  refine .when .startsType (fun _ => ih.typeNode.low (by decide) _ (by omega)) fun _ => ?_
  exact .when .endsOperand
    (fun _ => .bind R.nextSpan fun _ span => .pure (literal (by omega) span))
    fun _ => .bind .mark fun _ token => .pure (literal (by omega) (R.markSpan token))

theorem primaryTail_succ (ih : R.Family depth deeper) (bare : Bool) {low place : Nat}
    {node image : Node} (after : low ≤ place) (base : R.Tree low place node image) :
    R.Rel (R.Fits (depth + 1) 1) place (R.Tree low) (Parse.primaryTail (depth + 1) bare node)
      (Parse.primaryTail (deeper + 1) bare image) := by
  have again {stop : Nat} {node image : Node} (order : low ≤ stop)
      (tree : R.Tree low stop node image) :=
        (ih.primaryTail bare order tree).low (by decide : 1 ≤ 9)
  refine .call ?_
  simp only [Parse.primaryTail]
  refine .eat (fun _ => ?dot) ?_
  case dot =>
    refine .name (.isKind _) tellsName_isKind (fun _ name =>
      again (by omega) (R.selector (R.treeUpTo base (by assumption)) name)) ?_
    refine .eat (fun order => ?_) (again (by omega) (R.treeUpTo base (by omega)))
    have asserted {stop : Nat} {type type' : Option Node} (further : place ≤ stop)
        (given : Optional R.Tree place stop type type') :
        R.Rel (R.Fits depth 9) stop (R.Tree low)
          (do
            Parse.skip ")"
            Parse.primaryTail depth bare (.typeAssert node type))
          (do
            Parse.skip ")"
            Parse.primaryTail deeper bare (.typeAssert image type')) :=
      .skip fun order => again (by omega) (R.treeUpTo (R.typeAssert base given) order)
    refine .eat (fun _ => asserted (by omega) (.none (by omega))) ?_
    exact .bind (.map (ih.typeNode.low (by decide) _ (by omega)) fun _ type => .some type)
      fun _ type => asserted (by omega) type
  refine .eat (fun order => .bind (ih.callArgs.low (by decide) _ order) fun _ args =>
    again (by omega) (R.call base args)) ?_
  refine .eat (fun order => .bind (ih.indices.low (by decide) _ order) fun _ indices =>
    again (by omega) (R.index base indices)) ?_
  rw [R.isLiteralType_eq base]
  refine .testWhere (.is _) (sees_is _) rfl (.take fun order _ => ?_) (.pure base)
  exact .bind (ih.elements.low (by decide) _ order) fun _ elems =>
    again (by omega) (R.composite (.some base) elems)

theorem funcExpr_succ (ih : R.Family depth deeper) :
    R.Reads (R.Inside (depth + 1) 1) R.Tree (Parse.funcExpr (depth + 1))
      (Parse.funcExpr (deeper + 1)) := by
  refine Steps.Reads.callInside fun low place after => ?_
  simp only [Parse.funcExpr]
  refine .take fun _ _ => .bind (ih.params.low (by decide) low (by omega)) fun _ takes =>
    .bind (ih.results.low (by decide) _ (Nat.le_refl _)) fun _ gives => ?_
  refine .test (.is _) (sees_is _) ?_ (.pure (R.typeTree (R.funcType takes gives)))
  exact .bindInside (ih.block.lowInside (by decide) _ (Nat.le_refl _)) fun _ body =>
    .pure (R.funcLit takes gives body)

theorem callArgs_succ (ih : R.Family depth deeper) :
    R.Reads (R.Fits (depth + 1) 6) (Row R.Tree) (Parse.callArgs (depth + 1))
      (Parse.callArgs (deeper + 1)) := by
  refine Steps.Reads.call fun low place after => ?_
  simp only [Parse.callArgs]
  refine .same .skipTerminators fun _ =>
    .untilEaten (fun _ => .pure (.nil (by omega))) (.round fun counts => ?_)
  refine .bind ((ih.expr _).inLoop (by decide) (by decide) low (by omega)) fun _ arg =>
    .skip fun _ => .skip fun _ => .moved counts fun _ => ?_
  exact .bind (ih.callArgs.low (by decide) _ (by omega)) fun _ others => .pure (.cons arg others)

theorem indices_succ (ih : R.Family depth deeper) :
    R.Reads (R.Fits (depth + 1) 6) (Row R.Tree) (Parse.indices (depth + 1))
      (Parse.indices (deeper + 1)) := by
  have others := ih.indices.low (by decide : 6 ≤ 9)
  refine Steps.Reads.call fun low place after => ?_
  simp only [Parse.indices]
  refine .same .skipTerminators fun _ => .untilEaten (fun _ => .pure (.nil (by omega))) ?_
  refine .eatInside (fun _ => others _ (by omega)) (.eatInside (fun _ => others _ (by omega)) ?_)
  refine .round fun counts =>
    .bind ((ih.expr _).inLoop (by decide) (by decide) low (by omega)) fun _ index => ?_
  exact .moved counts fun order => .bind (others _ order) fun _ indices =>
    .pure (.cons index indices)

theorem elements_succ (ih : R.Family depth deeper) :
    R.Reads (R.Fits (depth + 1) 7) (Row R.Tree) (Parse.elements (depth + 1))
      (Parse.elements (deeper + 1)) := by
  refine Steps.Reads.call fun low place after => ?_
  simp only [Parse.elements]
  refine .same .skipTerminators fun _ =>
    .untilEaten (fun _ => .pure (.nil (by omega))) (.round fun {before before'} counts => ?_)
  have others {place stop : Nat} {elem elem' : Node} (order : stop ≤ place)
      (given : R.Tree low stop elem elem') :
      R.Rel (R.Since before depth 6) place (Row R.Tree low)
        (do
          Parse.skip ","
          Parse.keepMoving before
          let rest ← Parse.elements depth
          pure (elem :: rest))
        (do
          Parse.skip ","
          Parse.keepMoving before'
          let rest ← Parse.elements deeper
          pure (elem' :: rest)) :=
    .skip fun _ => .moved counts fun _ => .bind (ih.elements.low (by decide) _ (by omega))
      fun _ rest => .pure (.cons given rest)
  refine .bind (ih.element.inLoop (by decide) (by decide) low (by omega)) fun _ key =>
    .eaten fun order => .ite Iff.rfl ?_ (others (Nat.le_refl _) (R.treeUpTo key order))
  refine .bind (.map (ih.element.inLoop (by decide) (by decide) _ order) fun _ value => ?_)
    fun _ elem => others (Nat.le_refl _) elem
  exact R.keyValue key value

theorem element_succ (ih : R.Family depth deeper) :
    R.Reads (R.Fits (depth + 1) 6) R.Tree (Parse.element (depth + 1))
      (Parse.element (deeper + 1)) := by
  refine Steps.Reads.call fun low place after => ?_
  simp only [Parse.element]
  exact .eat (fun order => .bind (ih.elements.low (by decide) _ (by omega)) fun _ elems =>
    .pure (R.composite (.none (Nat.le_refl _)) elems)) (ih.expr _ _ after)

end Expressions

section Statements

theorem block_succ (ih : R.Family depth deeper) :
    R.Reads (R.Inside (depth + 1) 1) R.Tree (Parse.block (depth + 1))
      (Parse.block (deeper + 1)) := by
  refine Steps.Reads.callInside fun low place after => ?_
  simp only [Parse.block]
  refine .take fun _ opening => .bind (ih.statements low (by omega)) fun _ stmts =>
    .bind .mark fun order closing => .pure ?_
  exact R.treeUpTo (R.block (R.markUpTo opening closing) stmts) order

theorem statements_succ (ih : R.Family depth deeper) :
    R.Reads (R.Fits (depth + 1) 9) (Row R.Stmt) (Parse.statements (depth + 1))
      (Parse.statements (deeper + 1)) := by
  refine Steps.Reads.call fun low place after => ?_
  simp only [Parse.statements]
  refine .same .skipTerminators fun _ =>
    .untilSeen (.pure (.nil (by omega))) (.round fun counts => ?_)
  exact .bind (ih.statement.inLoop (by decide) (by decide) low (by omega)) fun _ stmt =>
    .moved counts fun order => .bind (ih.statements _ order) fun _ others =>
      .pure (R.stmtsBehind (.ofOptional stmt) others)

theorem statement_succ (ih : R.Family depth deeper) :
    R.Reads (R.Fits (depth + 1) 8) (Optional R.Stmt) (Parse.statement (depth + 1))
      (Parse.statement (deeper + 1)) := by
  have inside {low place : Nat} {parse parse' : Parse Node} (after : low ≤ place)
      (reads : R.Reads (R.Inside depth 1) R.Stmt parse parse') :
      R.Rel (R.Inside depth 7) place (Optional R.Stmt low) (some <$> parse) (some <$> parse') :=
    .mapInside (reads.lowInside (by decide) _ after) fun _ stmt => .some stmt
  refine Steps.Reads.call fun low place after => ?_
  simp only [Parse.statement]
  refine .test (.isAny _) (sees_isAny _) (inside after ih.localValues) ?_
  refine .test (.is _) (sees_is _) (inside after ih.localTypes) ?_
  refine .test (.is _) (sees_is _) (inside after ih.ifStatement) ?_
  refine .test (.is _) (sees_is _) (inside after ih.forStatement) ?_
  refine .test (.isAny _) (sees_isAny _) (inside after ih.switchStatement) ?_
  refine .test (.isAny _) (sees_isAny _) ?returns ?_
  case returns =>
    exact .take fun _ _ => .when .endsStatement
      (fun _ => .pure_bind (.pure (.some (R.list (.nil (by omega))))))
      fun _ => .bind ((ih.exprList _).low (by decide) _ (by omega)) fun _ items =>
        .pure (.some (R.list items))
  refine .test (.isAny _) (sees_isAny _) ?jumps ?_
  case jumps =>
    exact .take fun _ _ => .when (.isKind _)
      (fun _ => .bind .mark fun _ _ => .pure (.none (by omega))) fun _ => .pure (.none (by omega))
  refine .test (.is _) (sees_is _) ?case ?_
  case case =>
    exact .take fun _ _ => .bind ((ih.simpleStatement _).low (by decide) _ (by omega))
      fun _ stmt => .skip fun order => .pure (.some (R.stmtUpTo stmt order))
  refine .test (.is _) (sees_is _) ?default ?_
  case default => exact .take fun _ _ => .skip fun _ => .pure (.none (by omega))
  refine .test (.is _) (sees_is _) ?inner ?_
  case inner =>
    exact .mapInside (ih.block.lowInside (by decide) _ after) fun _ block =>
      .some (R.treeStmt block)
  refine .test .labelFollows sees_labelFollows ?label ?_
  case label =>
    exact .take fun _ _ => .bind .mark fun _ _ => .same .skipTerminators fun _ =>
      .when (.is _) (fun _ => .pure (.none (by omega)))
        fun _ => ih.statement.low (by decide) _ (by omega)
  exact .map ((ih.simpleStatement _).low (by decide) _ after) fun _ stmt => .some stmt

theorem simpleStatement_succ (ih : R.Family depth deeper) (bare : Bool) :
    R.Reads (R.Fits (depth + 1) 7) R.Stmt (Parse.simpleStatement (depth + 1) bare)
      (Parse.simpleStatement (deeper + 1) bare) := by
  have values := (ih.rightSide bare).low (by decide : 7 ≤ 9)
  refine Steps.Reads.call fun low place after => ?_
  simp only [Parse.simpleStatement]
  refine .bind ((ih.exprList bare).low (by decide) _ after) fun _ left =>
    .eat (fun order => ?define) ?_
  case define =>
    exact .bind (values _ order) fun _ right => .pure
      (R.stmtMono after (Nat.le_refl _) (R.define (R.bindingsOf left) (.none (by omega)) right))
  refine .test (.isAny _) (sees_isAny _) ?assign ?_
  case assign =>
    exact .take fun _ _ => .bind (values _ (by omega)) fun _ right =>
      .pure (R.assign left right)
  refine .eat (fun order => .pure (R.assign left (.nil order))) ?_
  exact .eat (fun order => .pure (R.assign left (.nil order))) (.pure (R.list left))

theorem rightSide_succ (ih : R.Family depth deeper) (bare : Bool) :
    R.Reads (R.Fits (depth + 1) 7) (Row R.Tree) (Parse.rightSide (depth + 1) bare)
      (Parse.rightSide (deeper + 1) bare) := by
  refine Steps.Reads.call fun low place after => ?_
  simp only [Parse.rightSide]
  exact .eat (fun _ => .bind ((ih.expr bare).low (by decide) _ (by omega)) fun _ operand =>
    .pure (.single (R.unary _ operand))) ((ih.exprList bare).low (by decide) _ after)

theorem localValues_succ (ih : R.Family depth deeper) :
    R.Reads (R.Inside (depth + 1) 1) R.Stmt (Parse.localValues (depth + 1))
      (Parse.localValues (deeper + 1)) := by
  refine Steps.Reads.callInside fun low place after => ?_
  simp only [Parse.localValues]
  refine .take fun _ _ => .eat (fun _ => ?_) ?_
  · exact .bind (ih.localValueGroup.low (by decide) _ (by omega)) fun _ specs =>
      .pure (R.ofDefinitions specs)
  · exact .bind (ih.localValueSpec.low (by decide) _ (by omega)) fun _ spec =>
      .pure (R.ofDefinitions (.single spec))

theorem localValueGroup_succ (ih : R.Family depth deeper) :
    R.Reads (R.Fits (depth + 1) 3) (Row R.Stmt) (Parse.localValueGroup (depth + 1))
      (Parse.localValueGroup (deeper + 1)) := by
  refine Steps.Reads.call fun low place after => ?_
  simp only [Parse.localValueGroup]
  refine .same .skipTerminators fun _ =>
    .untilEaten (fun _ => .pure (.nil (by omega))) (.round fun counts => ?_)
  exact .bind (ih.localValueSpec.inLoop (by decide) (by decide) low (by omega)) fun _ spec =>
    .moved counts fun order => .bind (ih.localValueGroup.low (by decide) _ order) fun _ others =>
      .pure (.cons spec others)

theorem localValueSpec_succ (ih : R.Family depth deeper) :
    R.Reads (R.Fits (depth + 1) 2) R.Stmt (Parse.localValueSpec (depth + 1))
      (Parse.localValueSpec (deeper + 1)) := by
  refine Steps.Reads.call fun low place after => ?_
  simp only [Parse.localValueSpec]
  refine .bind R.names fun {_ tokens tokens'} _ names => ?_
  have values {stop : Nat} {type type' : Option Node}
      (given : Optional R.Tree low stop type type') :
      R.Rel (R.Fits depth 1) stop (R.Stmt low)
        (do
          if ← Parse.eat "=" then
            let values ← Parse.exprList depth false
            pure (Node.define (tokens.map fun token => ⟨token.text, token.span⟩) type values)
          else
            let values ← pure []
            pure (Node.define (tokens.map fun token => ⟨token.text, token.span⟩) type values))
        (do
          if ← Parse.eat "=" then
            let values ← Parse.exprList deeper false
            pure (Node.define (tokens'.map fun token => ⟨token.text, token.span⟩) type' values)
          else
            let values ← pure []
            pure (Node.define (tokens'.map fun token => ⟨token.text, token.span⟩) type' values)) :=
    .eat (fun order => .bind ((ih.exprList _).low (by decide) _ order) fun _ values =>
        .pure (R.define (R.bindings names) given values))
      (.pure_bind (.pure (R.define (R.bindings names) given (.nil (Nat.le_refl _)))))
  refine .same (.is _) fun _ => .same .startsType fun _ => .ite Iff.rfl ?_
    (.pure_bind (values (.none (by omega))))
  exact .bind (.map (ih.typeNode low (by omega)) fun _ type => .some type) fun _ type =>
    values type

theorem localTypes_succ (ih : R.Family depth deeper) :
    R.Reads (R.Inside (depth + 1) 1) R.Stmt (Parse.localTypes (depth + 1))
      (Parse.localTypes (deeper + 1)) := by
  refine Steps.Reads.callInside fun low place after => ?_
  simp only [Parse.localTypes]
  exact .take fun _ _ => .eaten fun _ =>
    .bind ((ih.localTypeSpecs _).low (by decide) _ (by omega)) fun _ specs =>
      .pure (R.ofDefinitions specs)

theorem localTypeSpecs_succ (ih : R.Family depth deeper) (grouped : Bool) :
    R.Reads (R.Fits (depth + 1) 1) (Row R.Stmt) (Parse.localTypeSpecs (depth + 1) grouped)
      (Parse.localTypeSpecs (deeper + 1) grouped) := by
  have others := (ih.localTypeSpecs grouped).low (by decide : 1 ≤ 9)
  refine Steps.Reads.call fun low place after => ?_
  simp only [Parse.localTypeSpecs]
  refine .same .skipTerminators fun _ => .same (.isKind _) fun _ =>
    .ite Iff.rfl (.pure (.nil (by omega))) ?_
  refine .same (.is _) fun _ => .ite Iff.rfl
    (.bind .mark fun _ _ => .pure (.nil (by omega))) ?_
  refine .nameAhead (.isKind _) tellsName_isKind (fun _ name => ?_) (.pure (.nil (by omega)))
  refine .when .hasTypeParams (fun _ => .same .skipGroup fun _ => ?_) fun _ => ?_
  all_goals
    refine .skip fun _ => .bind (ih.typeNode.low (by decide) low (by omega)) fun _ type => ?_
    have defined := R.define (R.bindings (.cons (R.spelled name) .nil)) (.some type)
      (.nil (Nat.le_refl _))
    exact .ite Iff.rfl
      (.bind (others _ (Nat.le_refl _)) fun _ rest => .pure (.cons defined rest))
      (.pure (.single defined))

theorem ifStatement_succ (ih : R.Family depth deeper) :
    R.Reads (R.Inside (depth + 1) 1) R.Stmt (Parse.ifStatement (depth + 1))
      (Parse.ifStatement (deeper + 1)) := by
  have inner := ih.body.low (by decide : 2 ≤ 9)
  refine Steps.Reads.callInside fun low place after => ?_
  simp only [Parse.ifStatement]
  refine .take fun _ _ => .bind (ih.header.low (by decide) low (by omega)) fun _ header =>
    .bind (inner _ (Nat.le_refl _)) fun _ body => .eat (fun order => ?_)
      (.pure (R.branch header body (.none (Nat.le_refl _))))
  refine .test (.is _) (sees_is _) ?_ ?_
  · exact .bindInside (ih.ifStatement.lowInside (by decide) _ order) fun _ alt =>
      .pure (R.branch header body (.some alt))
  · exact .bind (inner _ order) fun _ alt => .pure (R.branch header body (.some alt))

theorem forStatement_succ (ih : R.Family depth deeper) :
    R.Reads (R.Inside (depth + 1) 1) R.Stmt (Parse.forStatement (depth + 1))
      (Parse.forStatement (deeper + 1)) := by
  refine Steps.Reads.callInside fun low place after => ?_
  simp only [Parse.forStatement]
  exact .take fun _ _ => .bind (ih.forHeader low (by omega)) fun _ header =>
    .bind (ih.body.low (by decide) _ (Nat.le_refl _)) fun _ body =>
      .pure (R.branch header body (.none (Nat.le_refl _)))

/-- A clause of a header may be left out. -/
theorem clauseUnless {test : Parse Bool} {clause clause' : Parse Node} {rank : Nat}
    (plain : Plain test) (reads : R.Reads (R.Fits depth rank) R.Stmt clause clause') :
    R.Reads (R.Fits depth rank) (Row R.Stmt) (Parse.clauseUnless test clause)
      (Parse.clauseUnless test clause') := fun low _ after =>
  .when plain (fun _ => .pure (.nil (by omega))) fun _ =>
    .bind (reads low (by omega)) fun _ node => .pure (.single node)

theorem forHeader_succ (ih : R.Family depth deeper) :
    R.Reads (R.Fits (depth + 1) 9) (Row R.Stmt) (Parse.forHeader (depth + 1))
      (Parse.forHeader (deeper + 1)) := by
  have clause := (ih.simpleStatement true).low (by decide : 7 ≤ 8)
  refine Steps.Reads.call fun low place after => ?_
  simp only [Parse.forHeader]
  refine .when (.is _) (fun _ => .pure (.nil (by omega))) fun _ => ?_
  refine .bind (clauseUnless (.isKind _) ih.forClause low (by omega)) fun _ start =>
    .when (.isKind _) (fun order => ?_) fun order => .pure (start.upTo order)
  exact .bind .mark fun _ _ =>
    .bind (clauseUnless (.isKind _) clause _ (by omega)) fun _ condition =>
    .bind (.mayTake (.isKind _)) fun _ _ =>
    .bind (clauseUnless (.is _) clause _ (by omega)) fun _ update =>
      .pure (R.stmtsBehind (R.stmtsBehind start condition) update)

theorem forClause_succ (ih : R.Family depth deeper) :
    R.Reads (R.Fits (depth + 1) 8) R.Stmt (Parse.forClause (depth + 1))
      (Parse.forClause (deeper + 1)) := by
  refine Steps.Reads.call fun low place after => ?_
  simp only [Parse.forClause]
  exact .when (.is _)
    (fun _ => .bind ((ih.rightSide _).low (by decide) _ (by omega)) fun _ values =>
      .pure (R.list values))
    fun _ => (ih.simpleStatement _).low (by decide) _ (by omega)

theorem switchStatement_succ (ih : R.Family depth deeper) :
    R.Reads (R.Inside (depth + 1) 1) R.Stmt (Parse.switchStatement (depth + 1))
      (Parse.switchStatement (deeper + 1)) := by
  have inner := ih.body.low (by decide : 2 ≤ 9)
  refine Steps.Reads.callInside fun low place after => ?_
  simp only [Parse.switchStatement]
  refine .take fun _ _ => .when (.is _) (fun _ => ?_) fun _ => ?_
  · exact .pure_bind (.bind (inner low (by omega)) fun _ body =>
      .pure (R.branch (.nil (Nat.le_refl _)) body (.none (Nat.le_refl _))))
  · exact .bind (ih.header.low (by decide) low (by omega)) fun _ header =>
      .bind (inner _ (Nat.le_refl _)) fun _ body =>
        .pure (R.branch header body (.none (Nat.le_refl _)))

theorem header_succ (ih : R.Family depth deeper) :
    R.Reads (R.Fits (depth + 1) 8) (Row R.Stmt) (Parse.header (depth + 1))
      (Parse.header (deeper + 1)) := by
  have simple := ih.simpleStatement true
  refine Steps.Reads.call fun low place after => ?_
  simp only [Parse.header]
  refine .bind (simple _ after) fun _ first => .when (.isKind _) (fun _ => ?_)
    fun order => .pure (.single (R.stmtUpTo first order))
  refine .bind .mark fun _ _ => .when (.is _)
    (fun _ => .pure (.single (R.stmtUpTo first (by omega)))) fun _ => ?_
  exact .bind (simple _ (by omega)) fun _ second => .pure (.cons first (.single second))

theorem body_succ (ih : R.Family depth deeper) :
    R.Reads (R.Fits (depth + 1) 2) R.Stmt (Parse.body (depth + 1))
      (Parse.body (deeper + 1)) := by
  refine Steps.Reads.call fun low place after => ?_
  simp only [Parse.body]
  refine .test (.is _) (sees_is _) ?_ (.bind R.nextStart fun order start => .pure ?_)
  · exact .weakenInside (ih.block.lowInside (by decide) _ after) fun block => R.treeStmt block
  · exact R.treeStmt (R.block (R.startPoint start) (.nil (by omega)))

end Statements

/-- With one call more, each function follows from how it is put together. -/
theorem succ (ih : R.Family depth deeper) : R.Family (depth + 1) (deeper + 1) where
  type := type_succ ih
  typeArgs := typeArgs_succ ih
  params := params_succ ih
  paramEntries := paramEntries_succ ih
  results := results_succ ih
  structFields := structFields_succ ih
  fieldLines := fieldLines_succ ih
  fieldLine := fieldLine_succ ih
  interfaceBody := interfaceBody_succ ih
  interfaceLines := interfaceLines_succ ih
  typeUnion := typeUnion_succ ih
  exprList := exprList_succ ih
  expr := expr_succ ih
  exprTail := exprTail_succ ih
  unary := unary_succ ih
  primary := primary_succ ih
  operand := operand_succ ih
  primaryTail := primaryTail_succ ih
  funcExpr := funcExpr_succ ih
  callArgs := callArgs_succ ih
  indices := indices_succ ih
  elements := elements_succ ih
  element := element_succ ih
  block := block_succ ih
  statements := statements_succ ih
  statement := statement_succ ih
  simpleStatement := simpleStatement_succ ih
  rightSide := rightSide_succ ih
  localValues := localValues_succ ih
  localValueGroup := localValueGroup_succ ih
  localValueSpec := localValueSpec_succ ih
  localTypes := localTypes_succ ih
  localTypeSpecs := localTypeSpecs_succ ih
  ifStatement := ifStatement_succ ih
  forStatement := forStatement_succ ih
  forHeader := forHeader_succ ih
  forClause := forClause_succ ih
  switchStatement := switchStatement_succ ih
  header := header_succ ih
  body := body_succ ih

/-- Where the depth matters, there is no room without any. -/
theorem zero_of_bounded (bounded : R.bounded) (deeper : Nat) : R.Family 0 deeper := by
  have fits {α : Type} {rank place : Nat} {post : Nat → α → α → Prop} {parse parse' : Parse α} :
      R.Rel (R.Fits 0 (rank + 1)) place post parse parse' :=
    R.never fun fits => absurd (fits bounded).room (by omega)
  have inside {α : Type} {rank place : Nat} {post : Nat → α → α → Prop} {parse parse' : Parse α} :
      R.Rel (R.Inside 0 (rank + 1)) place post parse parse' :=
    R.never fun inside => absurd (inside bounded).room (by omega)
  constructor <;> intros
  all_goals first
    | exact fits
    | exact inside
    | exact fun _ _ _ => fits
    | exact fun _ _ _ => inside

/-- Without calls, the functions take nothing. -/
theorem zero : R.Family 0 0 := by
  have literal (holds : Cursor → Prop) {post : Nat → Nat → Node → Node → Prop}
      (given : ∀ {low high span span'}, low ≤ high → R.Place span span' →
        post low high (.literal span) (.literal span')) :
      R.Reads holds post (do return .literal (← nextSpan)) (do return .literal (← nextSpan)) := by
    intro low place after
    exact R.bind (fun _ => True) (fun _ _ => trivial) R.nextSpan fun order span =>
      .pure (given (Nat.le_trans after order) span)
  have type (holds : Cursor → Prop) := literal holds R.literal
  have tree (holds : Cursor → Prop) := literal holds fun order span =>
    R.typeTree (R.literal order span)
  have stmt (holds : Cursor → Prop) := literal holds fun order span =>
    R.treeStmt (R.typeTree (R.literal order span))
  constructor
  case exprTail => exact fun _ {_ _ _ _} _ left => .pure left
  case primaryTail => exact fun _ {_ _ _ _} _ base => .pure base
  all_goals intros
  all_goals first
    | exact type _
    | exact tree _
    | exact stmt _
    | exact fun _ _ after => .pure (.nil after)
    | exact fun _ _ after => .pure (.none after)
    | exact fun _ _ after => .pure (R.noParams after)
    | exact fun _ _ after => .pure (R.noFields after)
    | exact fun _ _ after => .pure (R.noLines after)

end Reading.Family

/-- **All functions of the parser are beside themselves**, in every reading, and beside those with
more depth of calls where the depth matters and there is room. -/
theorem Reading.family (R : Reading) {depth deeper : Nat} (order : depth ≤ deeper)
    (level : R.bounded ∨ deeper = depth) : R.Family depth deeper := by
  induction depth generalizing deeper with
  | zero =>
    rcases level with bounded | rfl
    · exact .zero_of_bounded bounded deeper
    · exact .zero
  | succ depth ih =>
    obtain ⟨other, rfl⟩ : ∃ other, deeper = other + 1 := ⟨deeper - 1, by omega⟩
    exact (ih (by omega) (level.imp_right fun same => by omega)).succ

end Parse

end GoRefactor
