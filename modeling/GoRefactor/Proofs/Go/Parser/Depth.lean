import GoRefactor.Proofs.Go.Parser.Family

/-!
# Enough depth

The parser's functions are bounded in the depth of their calls. The bound is bookkeeping: where it
leaves room for the calls that a function makes, any greater depth reads the same.
-/

namespace GoRefactor

namespace Parse

variable {α β : Type}

/-- The same values, read with room for calls. -/
def settled : Reading where
  toSteps := Trail.anywhere.steps True
  Tree _ _ := Eq
  TypeTree _ _ := Eq
  Stmt _ _ := Eq
  Bindings := Eq
  Params _ _ := Eq
  Fields _ _ := Eq
  Interface _ _ := Eq
  treeMono _ _ same := same
  typeMono _ _ same := same
  stmtMono _ _ same := same
  typeTree same := same
  treeStmt same := same
  named name := name.1 ▸ rfl
  qualified first second := first.1 ▸ second.1 ▸ rfl
  applied base args := base ▸ (args.eq_of id) ▸ rfl
  pointer node := node ▸ rfl
  literal _ span := span ▸ rfl
  typeExpr _ parts := (parts.eq_of id) ▸ rfl
  funcType takes gives := takes ▸ gives ▸ rfl
  structType fields := fields ▸ rfl
  interfaceType lines := lines ▸ rfl
  selector base name := base ▸ name.1 ▸ rfl
  unary _ node := node ▸ rfl
  binary left right := left ▸ right ▸ rfl
  keyValue key value := key ▸ value ▸ rfl
  call func args := func ▸ (args.eq_of id) ▸ rfl
  index base indices := base ▸ (indices.eq_of id) ▸ rfl
  composite type elems := (type.eq_of id) ▸ (elems.eq_of id) ▸ rfl
  typeAssert base type := base ▸ (type.eq_of id) ▸ rfl
  funcLit takes gives body := takes ▸ gives ▸ body ▸ rfl
  block span stmts := span ▸ (stmts.eq_of id) ▸ rfl
  isLiteralType_eq node := node ▸ rfl
  define names type values := names ▸ (type.eq_of id) ▸ (values.eq_of id) ▸ rfl
  assign targets values := (targets.eq_of id) ▸ (values.eq_of id) ▸ rfl
  branch header body alt := (header.eq_of id) ▸ body ▸ (alt.eq_of id) ▸ rfl
  list items := (items.eq_of id) ▸ rfl
  ofDefinitions nodes := (nodes.eq_of id) ▸ rfl
  bindings tokens := Trail.eq_of_spelled tokens ▸ rfl
  bindingsOf nodes := (nodes.eq_of id) ▸ rfl
  noParams _ := rfl
  bareParam span node := span ▸ node ▸ rfl
  paramsOf entries := entries.eq_of (·.eq id) ▸ rfl
  noFields _ := rfl
  fieldsBehind fields others := fields ▸ others ▸ rfl
  fieldsNamed _ tokens span node := Trail.eq_of_spelled tokens ▸ span ▸ node ▸ rfl
  embedding _ node span := node ▸ span ▸ rfl
  noLines _ := rfl
  method name span takes gives lines := name ▸ span ▸ takes ▸ gives ▸ lines ▸ rfl
  embeds union lines := (union.eq_of id) ▸ lines ▸ rfl

/-- The computations give the same wherever the predicate holds. -/
abbrev Agree (holds : Cursor → Prop) (place : Nat) (first second : Parse α) : Prop :=
  settled.Rel holds place (fun _ => Eq) first second

variable {holds : Cursor → Prop} {place depth deeper : Nat}

/-- A computation agrees with itself. -/
theorem agree_refl (parse : Parse α) : Agree holds place parse parse :=
  Trail.beside_self fun _ _ => rfl

/-- What follows a computation agrees where it does for each value. -/
theorem agree_behind [Cursor.Stable holds] {parse : Parse α} {following following' : α → Parse β}
    (behind : ∀ {stop} value, Agree holds stop (following value) (following' value)) :
    Agree holds place (parse >>= following) (parse >>= following') :=
  .equally (agree_refl parse) fun _ => behind _

/-- Computations that agree give the same, wherever the offset is said to be. -/
theorem Agree.run_eq {first second : Parse α} (agree : Agree holds 0 first second)
    {cursor : Cursor} (here : holds cursor) : first.run cursor = second.run cursor := by
  obtain ⟨same, -, -, -, equal⟩ := agree cursor trivial here
  exact Prod.ext equal same.symm

/-- Deeper calls change nothing where there is room. -/
theorem settled_family (order : depth ≤ deeper) : settled.Family depth deeper :=
  settled.family order (.inl trivial)

/-- What is read with room for calls agrees. -/
theorem agree_of_reads {first second : Parse α}
    (reads : settled.Reads holds (fun _ _ => Eq) first second) : Agree holds place first second :=
  reads _ (Nat.le_refl _)

section Declarations

/-- More rounds of a group change nothing where there is room for each. -/
theorem agree_groupRounds {spec spec' : Option String → Parse (List α)}
    (agree : ∀ {place} doc, Agree (settled.Fits depth 9) place (spec doc) (spec' doc))
    {rounds more : Nat}
    (inside : rounds ≤ depth) (order : rounds ≤ more) :
    Agree (settled.Fits rounds 9) place (groupRounds spec rounds) (groupRounds spec' more) := by
  induction rounds generalizing place more with
  | zero => exact settled.never fun fits => absurd (fits trivial).room (by omega)
  | succ rounds ih =>
    obtain ⟨other, rfl⟩ : ∃ other, more = other + 1 := ⟨more - 1, by omega⟩
    refine .call ?_
    simp only [groupRounds]
    refine .same .skipTerminators fun _ =>
      .untilEaten (fun _ => .pure rfl) (.round fun counts => ?_)
    refine .same .docHere fun _ => .equally (settled.imp (agree _) fun since bounded => ?_)
      fun _ => .moved counts fun _ => ?_
    · have fits := (since bounded).fits (by decide)
      exact ⟨fits.finishes, by have room := fits.room; omega⟩
    · exact .equally (ih (by omega) (by omega)) fun _ => .pure rfl

/-- More depth reads the same specification or group of them, where it reads each the same. -/
theorem agree_grouped {spec spec' : Option String → Parse (List α)} (order : depth ≤ deeper)
    (agree : ∀ {place} doc, Agree (settled.Fits depth 9) place (spec doc) (spec' doc)) :
    Agree (settled.Fits depth 9) place (grouped depth spec) (grouped deeper spec') := by
  unfold grouped
  exact agree_behind fun doc => agree_behind fun _ => agree_behind fun _ =>
    .ite Iff.rfl (agree_groupRounds agree (Nat.le_refl _) order) (agree doc)

theorem agree_typeShape (order : depth ≤ deeper) :
    Agree (settled.Fits depth 9) place (typeShape depth) (typeShape deeper) := by
  have same := settled_family order
  unfold typeShape
  refine agree_behind fun _ => .ite Iff.rfl
    (.equally (agree_of_reads (same.structFields.low (by decide))) fun _ => .pure rfl) ?_
  exact agree_behind fun _ => .ite Iff.rfl
    (.equally (agree_of_reads (same.interfaceBody.low (by decide))) fun _ => .pure rfl)
    (.equally (agree_of_reads (same.type.low (by decide))) fun _ => .pure rfl)

theorem agree_typeSpec (order : depth ≤ deeper) (inGroup : Bool) (start : Nat)
    (doc : Option String) :
    Agree (settled.Fits depth 9) place (typeSpec depth inGroup start doc)
      (typeSpec deeper inGroup start doc) := by
  simp only [typeSpec]
  refine agree_behind fun _ => agree_behind fun _ => .ite Iff.rfl
    (agree_behind fun _ => agree_behind fun _ => ?_) (agree_refl _)
  refine .ite Iff.rfl (agree_behind fun _ => ?_) ?_
  all_goals
    exact agree_behind fun _ => .equally (agree_typeShape order) fun _ => agree_refl _

theorem agree_receiver (order : depth ≤ deeper) :
    Agree (settled.Fits depth 9) place (receiver depth) (receiver deeper) := by
  have same := settled_family order
  unfold receiver
  exact agree_behind fun _ => .ite Iff.rfl
    (.equally (agree_of_reads (same.params.low (by decide))) fun _ => .pure rfl) (.pure rfl)

theorem agree_funcBody (order : depth ≤ deeper) :
    Agree (settled.Fits depth 9) place (funcBody depth) (funcBody deeper) := by
  have same := settled_family order
  unfold funcBody
  exact .test (.is _) (sees_is _)
    (.bindInside (agree_of_reads (same.block.lowInside (by decide))) fun _ equal =>
      .pure (equal ▸ rfl))
    (.pure rfl)

theorem agree_funcDecl (order : depth ≤ deeper) :
    Agree (settled.Fits depth 9) place (funcDecl depth) (funcDecl deeper) := by
  have same := settled_family order
  simp only [funcDecl]
  refine agree_behind fun _ => agree_behind fun _ => .equally (agree_receiver order) fun _ =>
    agree_behind fun _ => .ite Iff.rfl (agree_behind fun _ => agree_behind fun _ =>
      .ite Iff.rfl (agree_behind fun _ => ?_) ?_) (agree_refl _)
  all_goals
    exact agree_behind fun _ => .equally (agree_of_reads (same.params.low (by decide))) fun _ =>
      .equally (agree_of_reads (same.results.low (by decide))) fun _ => agree_behind fun _ =>
        .equally (agree_funcBody order) fun _ => agree_refl _

theorem agree_declaredType (order : depth ≤ deeper) :
    Agree (settled.Fits depth 9) place (declaredType depth) (declaredType deeper) := by
  have same := settled_family order
  unfold declaredType
  exact agree_behind fun _ => .ite Iff.rfl
    (agree_behind fun _ => .equally (agree_of_reads (same.type.low (by decide))) fun _ =>
      agree_refl _)
    (.pure rfl)

theorem agree_initialValues (order : depth ≤ deeper) :
    Agree (settled.Fits depth 9) place (initialValues depth) (initialValues deeper) := by
  have items := ((settled_family order).exprList false).low (by decide : 6 ≤ 9)
  unfold initialValues
  refine agree_behind fun _ => .ite Iff.rfl ?_ (.pure rfl)
  exact .weaken (items _ (Nat.le_refl _)) fun _ row => row.eq_of id

theorem agree_valueSpec (order : depth ≤ deeper) (inGroup : Bool) (start : Nat)
    (doc : Option String) :
    Agree (settled.Fits depth 9) place (valueSpec depth inGroup start doc)
      (valueSpec deeper inGroup start doc) := by
  unfold valueSpec
  refine agree_behind fun _ => agree_behind fun _ => .ite Iff.rfl (agree_refl _) ?_
  exact .equally (agree_declaredType order) fun _ => .equally (agree_initialValues order) fun _ =>
    agree_refl _

/-- Deeper calls read the same from the top level. -/
theorem agree_topLevel (order : depth ≤ deeper) :
    Agree (settled.Fits depth 9) place (topLevel depth) (topLevel deeper) := by
  have values {place : Nat} (make : ValueDecl → TopDecl) (inGroup : Bool) (start : Nat) :
      Agree (settled.Fits depth 9) place
        (List.map make <$> grouped depth (valueSpec depth inGroup start))
        (List.map make <$> grouped deeper (valueSpec deeper inGroup start)) :=
    .map (agree_grouped order (agree_valueSpec order inGroup start)) fun _ same => same ▸ rfl
  unfold topLevel
  refine agree_behind fun inGroup => agree_behind fun start => agree_behind fun _ =>
    .ite Iff.rfl (agree_grouped order fun _ => agree_refl _) ?_
  refine agree_behind fun _ => .ite Iff.rfl
    (agree_grouped order (agree_typeSpec order inGroup start)) ?_
  refine agree_behind fun _ => .ite Iff.rfl (agree_funcDecl order) ?_
  refine agree_behind fun _ => .ite Iff.rfl (values TopDecl.var inGroup start) ?_
  exact agree_behind fun _ => .ite Iff.rfl (values TopDecl.const inGroup start) (agree_refl _)

/-- Deeper calls and more rounds read the same declarations. -/
theorem agree_declarations (order : depth ≤ deeper) {rounds more : Nat} (inside : rounds ≤ depth)
    (fewer : rounds ≤ more) :
    Agree (settled.Fits rounds 9) place (declarations depth rounds) (declarations deeper more) := by
  induction rounds generalizing place more with
  | zero => exact settled.never fun fits => absurd (fits trivial).room (by omega)
  | succ rounds ih =>
    obtain ⟨other, rfl⟩ : ∃ other, more = other + 1 := ⟨more - 1, by omega⟩
    refine .call ?_
    simp only [declarations]
    refine .same .skipTerminators fun _ => .untilEnd (.pure rfl) (.round fun counts => ?_)
    refine .equally (settled.imp (agree_topLevel order) fun since bounded => ?_)
      fun _ => .moved counts fun _ => ?_
    · have fits := (since bounded).fits (by decide)
      exact ⟨fits.finishes, by have room := fits.room; omega⟩
    · exact .equally (ih (by omega) (by omega)) fun _ => .pure rfl

end Declarations

end Parse

/-- **The limits are no limits.** From a place whose stream ends as streams do, any greater depth of
calls and any greater number of rounds read the same declarations as the limits for its tokens. -/
theorem Parse.declarations_of_depthLimit_le {cursor : Cursor}
    (finishes : cursor.finish.kind = .finish) {depth rounds : Nat}
    (deep : depthLimit cursor.ahead.length ≤ depth)
    (often : depthLimit cursor.ahead.length ≤ rounds) :
    (Parse.declarations depth rounds).run cursor =
      (Parse.declarations (depthLimit cursor.ahead.length)
        (depthLimit cursor.ahead.length)).run cursor := by
  refine (Parse.Agree.run_eq (Parse.agree_declarations deep (Nat.le_refl _) often)
    fun _ => ⟨finishes, ?_⟩).symm
  unfold depthLimit
  omega

end GoRefactor
