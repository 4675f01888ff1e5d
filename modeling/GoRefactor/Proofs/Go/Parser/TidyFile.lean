import GoRefactor.Proofs.Go.Parser.Tidy
import GoRefactor.Proofs.Go.Stored
import Mathlib.Data.List.Perm.Subperm

/-!
# Files that are read are tidy

The declarations of a file are read behind each other, so they have no names in common, and each of
them is tidy. Of declarations with one name the last one counts, which leaves fewer of them.
-/

namespace GoRefactor

/-- Items are tidy, their names lie between two offsets, and no two have names in common. -/
structure Spread {α : Type} (tidy : α → Prop) (passes : α → List Span) (low high : Nat)
    (items : List α) : Prop where
  order : low ≤ high
  each : ∀ item ∈ items, tidy item ∧ Within low high (passes item)
  apart : items.Pairwise fun left right => (passes left).Disjoint (passes right)

namespace Spread

variable {α β : Type} {tidy : α → Prop} {passes : α → List Span} {low middle high : Nat}
  {items others : List α}

/-- No items are spread between any two offsets. -/
theorem nil (order : low ≤ high) : Spread tidy passes low high [] :=
  ⟨order, fun _ member => (nomatch member), .nil⟩

/-- An item is spread where its names lie. -/
theorem single {item : α} (order : low ≤ high) (holds : tidy item)
    (within : Within low high (passes item)) : Spread tidy passes low high [item] :=
  ⟨order, fun _ member => List.mem_singleton.mp member ▸
    ⟨holds, within⟩, List.pairwise_singleton _ _⟩

/-- An item in front of others is spread with them if it has other names. -/
theorem cons {item : α} (holds : tidy item) (within : Within low high (passes item))
    (rest : Spread tidy passes low high items)
    (apart : ∀ other ∈ items, (passes item).Disjoint (passes other)) :
    Spread tidy passes low high (item :: items) :=
  ⟨rest.order, List.forall_mem_cons.mpr ⟨⟨holds, within⟩, rest.each⟩,
    List.pairwise_cons.mpr ⟨apart, rest.apart⟩⟩

/-- The offsets may be further apart. -/
theorem mono {low' high' : Nat} (spread : Spread tidy passes low high items) (below : low' ≤ low)
    (above : high ≤ high') : Spread tidy passes low' high' items :=
  ⟨Nat.le_trans below (Nat.le_trans spread.order above),
    fun item member => ⟨(spread.each item member).1, (spread.each item member).2.mono below above⟩,
    spread.apart⟩

/-- Items behind items are spread between the outer offsets. -/
theorem append (first : Spread tidy passes low middle items)
    (second : Spread tidy passes middle high others) :
    Spread tidy passes low high (items ++ others) := by
  refine ⟨Nat.le_trans first.order second.order, ?_, ?_⟩
  · intro item member
    rcases List.mem_append.mp member with here | there
    · exact (first.mono (Nat.le_refl low) second.order).each item here
    · exact (second.mono first.order (Nat.le_refl high)).each item there
  · rw [List.pairwise_append]
    exact ⟨first.apart, second.apart, fun left here right there =>
      (first.each left here).2.disjoint (second.each right there).2⟩

/-- Items may be changed, as long as their names stay. -/
theorem map {tidy' : β → Prop} {passes' : β → List Span} {change : β → α} {items : List β}
    (spread : Spread tidy' passes' low high items) (holds : ∀ item, tidy' item → tidy (change item))
    (keeps : ∀ item, passes (change item) = passes' item) :
    Spread tidy passes low high (items.map change) := by
  refine ⟨spread.order, ?_, ?_⟩
  · intro item member
    obtain ⟨old, inside, rfl⟩ := List.mem_map.mp member
    rw [keeps]
    exact ⟨holds old (spread.each old inside).1, (spread.each old inside).2⟩
  · rw [List.pairwise_map]
    simp only [keeps]
    exact spread.apart

/-- Items of which only a part has names. -/
theorem ofMap {β : Type} {part : β → α} {items : List β}
    (spread : Spread tidy passes low high (items.map part)) :
    Spread (fun item => tidy (part item)) (fun item => passes (part item)) low high items := by
  refine ⟨spread.order, fun _ member => spread.each _ (List.mem_map_of_mem member), ?_⟩
  have apart := spread.apart
  rwa [List.pairwise_map] at apart

end Spread

/-! ## Values -/

section Values

open Node

/-- A type and a value, each of which may be left out, are tidy. -/
def PairTidy (pair : Option Node × Option Node) : Prop :=
  TidyOption pair.1 ∧ TidyOption pair.2 ∧
    (passesOption pair.1).Disjoint (passesOption pair.2)

/-- Places of their names. -/
def pairPasses (pair : Option Node × Option Node) : List Span :=
  passesOption pair.1 ++ passesOption pair.2

variable {low middle high : Nat} {values : List Node}

/-- The names of values without types are those of the values. -/
theorem pairPasses_subset {α : Type} {blanks : List α} {pair : Option Node × Option Node}
    (member : pair ∈ (blanks.map fun _ => (none : Option Node)).zip (values.map some)) :
    pairPasses pair ⊆ passesAll values := by
  obtain ⟨type, value⟩ := pair
  obtain ⟨left, right⟩ := List.of_mem_zip member
  obtain ⟨-, -, rfl⟩ := List.mem_map.mp left
  obtain ⟨node, listed, rfl⟩ := List.mem_map.mp right
  exact passes_subset_passesAll listed

/-- Values without types are spread where they lie. -/
theorem spread_values {α : Type} (blanks : List α) (neat : NeatAll low high values) :
    Spread PairTidy pairPasses low high
      ((blanks.map fun _ => (none : Option Node)).zip (values.map some)) := by
  induction blanks generalizing values with
  | nil => exact .nil neat.order
  | cons blank blanks ih =>
    cases values with
    | nil => exact .nil neat.order
    | cons value values =>
      obtain ⟨first, later, apart⟩ := neat.uncons
      refine .cons ⟨trivial, first.tidy, List.disjoint_nil_left _⟩ first.within (ih later) ?_
      exact fun other member span here there => apart here (pairPasses_subset member there)

/-- Names without types and values are spread anywhere. -/
theorem spread_blanks {α : Type} (blanks : List α) (order : low ≤ high) :
    Spread PairTidy pairPasses low high
      ((blanks.map fun _ => (none : Option Node)).zip (blanks.map fun _ => none)) ∧
    ∀ pair ∈ (blanks.map fun _ => (none : Option Node)).zip (blanks.map fun _ => none),
      pairPasses pair = [] := by
  induction blanks with
  | nil => exact ⟨.nil order, fun _ member => (nomatch member)⟩
  | cons blank blanks ih =>
    exact ⟨.cons ⟨trivial, trivial, List.disjoint_nil_left _⟩ (.nil _ _) ih.1 fun _ _ =>
      List.disjoint_nil_left _, List.forall_mem_cons.mpr ⟨rfl, ih.2⟩⟩

/-- A type and values, handed out to names. The first name has the type, and a value or all of them;
the others have a value at most. -/
theorem spread_pairs (tokens : List Token) {type : Option Node}
    (first : NeatAll low middle type.toList) (second : NeatAll middle high values) :
    Spread PairTidy pairPasses low high
      ((firstOnly tokens type).zip (distribute tokens values)) := by
  obtain ⟨order, tidyType, withinType⟩ := first.toLies.option
  have whole := Nat.le_trans order second.order
  unfold firstOnly distribute
  cases tokens with
  | nil => exact .nil whole
  | cons token rest =>
    by_cases same : (values.length == (token :: rest).length) = true
    · rw [if_pos same]
      cases values with
      | nil => exact .nil whole
      | cons value values =>
        obtain ⟨here, later, apart⟩ := second.uncons
        refine .cons ⟨tidyType, here.tidy, withinType.disjoint here.within⟩
          (withinType.append here.within order here.order)
          ((spread_values rest later).mono order (Nat.le_refl high)) ?_
        intro other member
        have others := pairPasses_subset member
        refine List.disjoint_append_left.mpr
          ⟨?_, fun span inside there => apart inside (others there)⟩
        exact withinType.disjoint (later.within.subset others)
    · rw [if_neg same]
      have all : TidyOption (if values.isEmpty then none else some (Node.list values)) ∧
          passesOption (if values.isEmpty then none else some (Node.list values)) =
            passesAll values := by
        cases values with
        | nil => exact ⟨trivial, rfl⟩
        | cons value values => exact ⟨second.tidy, rfl⟩
      obtain ⟨spread, nothing⟩ := spread_blanks rest whole
      refine .cons ⟨tidyType, all.1, ?_⟩ ?_ spread ?_
      · rw [all.2]
        exact withinType.disjoint second.within
      · rw [pairPasses, all.2]
        exact withinType.append second.within order second.order
      · intro other member
        rw [nothing other member]
        exact List.disjoint_nil_right _

/-- A type and values make declarations with different names. -/
theorem spread_valueDecls (tokens : List Token) (extent : Span) {typed : Option (Span × Node)}
    (doc : Option String) (first : NeatAll low middle (typed.map Prod.snd).toList)
    (second : NeatAll middle high values) :
    Spread ValueDecl.Tidy ValueDecl.passes low high
      (valueDecls tokens extent typed values doc) := by
  have pairs := spread_pairs tokens first second
  have short : ((firstOnly tokens (typed.map Prod.snd)).zip (distribute tokens values)).length ≤
      tokens.length := by
    rw [List.length_zip]
    refine Nat.le_trans (Nat.min_le_left _ _) (Nat.le_of_eq ?_)
    cases tokens with
    | nil => rfl
    | cons token rest => simp [firstOnly]
  rw [← List.map_snd_zip short] at pairs
  exact pairs.ofMap.map (fun _ tidy => tidy) fun _ => rfl

end Values

/-! ## Declarations -/

namespace TopDecl

/-- No name is passed twice, shared types apart. -/
def Tidy : TopDecl → Prop
  | .importing _ => True
  | .type decl => decl.shape.Tidy
  | .function decl => decl.Tidy
  | .var decl => decl.Tidy
  | .const decl => decl.Tidy

/-- Places of the names that a walk over a declaration passes. -/
def passes : TopDecl → List Span
  | .importing _ => []
  | .type decl => decl.shape.passes
  | .function decl => decl.passes
  | .var decl => decl.passes
  | .const decl => decl.passes

end TopDecl

namespace Parse

open Node

variable {α : Type} {low place limit : Nat}

section Groups

variable {lies : Nat → Nat → List α → Prop} (none : ∀ {low high}, low ≤ high → lies low high [])
  (join : ∀ {low middle high} {first second : List α}, lies low middle first →
    lies middle high second → lies low high (first ++ second))
  {spec : Option String → Parse (List α)}
  (reads : ∀ doc low {place}, low ≤ place → Reads place (lies low) (spec doc))

include none join reads

/-- Rounds of a group read behind each other. -/
theorem reads_groupRounds (rounds : Nat) (after : low ≤ place) :
    Reads place (lies low) (groupRounds spec rounds) := by
  induction rounds generalizing low place with
  | zero => exact .pure (none after)
  | succ rounds ih =>
    simp only [groupRounds]
    refine .behind fun _ _ _ => .behind fun _ _ _ => .behind fun _ _ _ =>
      .ite (.pure (none (by omega))) ?_
    exact .behind fun _ _ _ => .behind fun _ doc _ => .bind (reads doc low (by omega))
      fun _ _ _ decls => .behind fun _ _ _ => .bind (ih (by omega)) fun _ _ _ others =>
        .pure (join decls others)

/-- One specification or a group of them is spread where it was read. -/
theorem reads_grouped (after : low ≤ place) : Reads place (lies low) (grouped limit spec) := by
  unfold grouped
  exact .behind fun _ doc _ => .behind fun _ _ _ => .behind fun _ _ _ => .ite
    (reads_groupRounds none join reads limit (by omega)) (reads doc low (by omega))

end Groups

/-- Declarations up to the end of the text lie behind each other if those that start at one token
lie where they were read. -/
theorem reads_rounds {lies : Nat → Nat → List TopDecl → Prop}
    (none : ∀ {low high}, low ≤ high → lies low high [])
    (join : ∀ {low middle high} {first second : List TopDecl}, lies low middle first →
      lies middle high second → lies low high (first ++ second))
    (reads : ∀ {low place}, low ≤ place → Reads place (lies low) (topLevel limit)) (rounds : Nat)
    (after : low ≤ place) : Reads place (lies low) (declarations limit rounds) := by
  induction rounds generalizing low place with
  | zero => exact .pure (none after)
  | succ rounds ih =>
    simp only [declarations]
    refine .behind fun _ _ _ => .behind fun _ _ _ => .ite (.pure (none (by omega))) ?_
    exact .behind fun _ _ _ => .bind (reads (by omega)) fun _ _ _ decls => .behind fun _ _ _ =>
      .bind (ih (by omega)) fun _ _ _ others => .pure (join decls others)

/-- An import passes no names. -/
theorem reads_importSpec (after : low ≤ place) :
    Reads place (Spread TopDecl.Tidy TopDecl.passes low) importSpec := by
  unfold importSpec
  exact .behind fun _ _ _ => .behind fun _ _ _ => .ite
    (.behind fun _ _ _ => .pure (.single (by omega) trivial (.nil _ _)))
    (.behind fun _ _ _ => .pure (.nil (by omega)))

/-- The names in a declared type lie where it was read. -/
theorem reads_typeShape (after : low ≤ place) :
    Reads place (fun stop shape => shape.Tidy ∧ Within low stop shape.passes)
      (typeShape limit) := by
  unfold typeShape
  refine .behind fun _ _ _ => .ite
    (.bind (tidy_structFields low (by omega)) fun _ _ _ fields =>
      .pure ⟨fields.tidy, fields.within⟩) ?_
  refine .behind fun _ _ _ => .ite
    (.bind (tidy_interfaceBody low (by omega)) fun _ _ _ lines =>
      .pure ⟨lines.tidy, lines.within⟩) ?_
  exact .bind (tidy_type low (by omega)) fun _ _ _ type => .pure ⟨type.tidy, type.within⟩

/-- A declared type is spread where it was read. -/
theorem reads_typeSpec (inGroup : Bool) (start : Nat) (doc : Option String) (after : low ≤ place) :
    Reads place (Spread TopDecl.Tidy TopDecl.passes low) (typeSpec limit inGroup start doc) := by
  have rest {place : Nat} (name : Token) (start : Nat) (after : low ≤ place) :
      Reads place (Spread TopDecl.Tidy TopDecl.passes low) (do
        skip "="
        let shape ← typeShape limit
        let extent ← spanFrom start
        return [.type ⟨name.text, name.span, extent, shape, doc⟩]) :=
    .behind fun _ _ _ => .bind (reads_typeShape (by omega)) fun _ _ _ ⟨tidy, within⟩ =>
      .behind fun _ _ _ => .pure (.single (by omega) tidy (within.mono (Nat.le_refl _) (by omega)))
  unfold typeSpec
  refine .behind fun _ start _ => .behind fun _ _ _ => .ite ?_
    (.behind fun _ _ _ => .pure (.nil (by omega)))
  exact .behind fun _ name _ => .behind fun _ _ _ => .ite
    (.behind fun _ _ _ => rest name start (by omega)) (rest name start (by omega))

/-- The type of a receiver lies where it was read. -/
theorem reads_receiver (low : Nat) (after : low ≤ place) :
    Reads place (fun stop receiver => NeatAll low stop (receiver.map (·.typeNode)).toList)
      (receiver limit) := by
  unfold receiver
  refine .behind fun _ _ _ => .ite ?_ (.pure (.nil (by omega)))
  refine .bind (tidy_params low (by omega)) fun _ params _ neat => .pure ?_
  cases params with
  | nil => exact .nil neat.parts.order
  | cons first others => exact .single (neat.parts.each _ List.mem_cons_self)

/-- The body of a function lies where it was read. -/
theorem reads_funcBody (low : Nat) (after : low ≤ place) :
    Reads place (fun stop body => LieAll low stop body.toList) (funcBody limit) := by
  unfold funcBody
  exact .behind fun _ _ _ => .ite
    (.bind (tidy_block low (by omega)) fun _ _ _ block => .pure (.single block.toLies))
    (.pure (.nil (by omega)))

/-- A function is spread where its parts lie behind each other. -/
theorem spread_function {decl : FuncDecl} {first second third high : Nat}
    (receiver : NeatAll low first (decl.receiver.map (·.typeNode)).toList)
    (params : NeatParams first second decl.params) (results : NeatParams second third decl.results)
    (body : LieAll third high decl.body.toList) :
    Spread TopDecl.Tidy TopDecl.passes low high [.function decl] := by
  obtain ⟨order, tidy, within⟩ := body.option
  have behindResults := results.within.append within results.parts.order order
  have behindParams := params.within.append behindResults params.parts.order
    (Nat.le_trans results.parts.order order)
  have behindReceiver := Nat.le_trans params.parts.order (Nat.le_trans results.parts.order order)
  exact .single (Nat.le_trans receiver.order behindReceiver)
    ⟨receiver.tidy, params.tidy, results.tidy, tidy, receiver.within.disjoint behindParams,
      params.within.disjoint behindResults, results.within.disjoint within⟩
    (receiver.within.append behindParams receiver.order behindReceiver)

/-- A function or method is spread where it was read. -/
theorem reads_funcDecl (after : low ≤ place) :
    Reads place (Spread TopDecl.Tidy TopDecl.passes low) (funcDecl limit) := by
  have rest {place middle : Nat} {receiver : Option Param} (doc : Option String)
      (keyword name : Token)
      (given : NeatAll low middle (receiver.map (·.typeNode)).toList) (after : middle ≤ place) :
      Reads place (Spread TopDecl.Tidy TopDecl.passes low) (do
        let start ← nextStart
        let params ← params limit
        let results ← results limit
        let signatureSpan ← spanFrom start
        let body ← funcBody limit
        let extent ← spanFrom keyword.span.start
        return [.function
          ⟨name.text, name.span, extent, receiver, params, results, signatureSpan, body,
            doc⟩]) := by
    exact .behind fun _ _ _ => .bind (tidy_params middle (by omega)) fun _ _ _ takes =>
      .bind (tidy_results _ (Nat.le_refl _)) fun _ _ _ gives => .behind fun _ _ _ =>
      .bind (reads_funcBody _ (by assumption)) fun _ _ _ body => .behind fun _ _ _ =>
        .pure ((spread_function given takes gives body).mono (Nat.le_refl _) (by omega))
  unfold funcDecl
  refine .behind fun _ doc _ => .behind fun _ keyword _ =>
    .bind (reads_receiver low (by omega)) fun _ _ _ given => .behind fun _ _ _ => .ite ?_
    (.behind fun _ _ _ => .pure (.nil (by omega)))
  exact .behind fun _ name _ => .behind fun _ _ _ => .ite
    (.behind fun _ _ _ => rest doc keyword name given (by omega))
    (rest doc keyword name given (by omega))

/-- The type of declared values lies where it was read. -/
theorem reads_declaredType (after : low ≤ place) :
    Reads place (fun stop typed => NeatAll low stop (typed.map Prod.snd).toList)
      (declaredType limit) := by
  unfold declaredType
  exact .behind fun _ _ _ => .ite
    (.behind fun _ _ _ => .bind (tidy_type low (by omega)) fun _ _ _ type =>
      .behind fun _ _ _ => .pure (.single (type.upTo (by omega))))
    (.pure (.nil (by omega)))

/-- The values that names are declared with lie where they were read. -/
theorem reads_initialValues (after : low ≤ place) :
    Reads place (NeatAll low) (initialValues limit) := by
  unfold initialValues
  exact .behind fun _ _ _ => .ite (tidy_exprList _ low (by omega))
    (.pure (.nil (by omega)))

/-- Names that are declared together are spread where they were read. -/
theorem reads_valueSpec (inGroup : Bool) (start : Nat) (doc : Option String) (after : low ≤ place) :
    Reads place (Spread ValueDecl.Tidy ValueDecl.passes low)
      (valueSpec limit inGroup start doc) := by
  unfold valueSpec
  refine .behind fun _ _ _ => .behind fun _ tokens _ => .ite
    (.behind fun _ _ _ => .pure (.nil (by omega))) ?_
  exact .bind (reads_declaredType (by omega)) fun _ _ _ type =>
    .bind (reads_initialValues (by omega)) fun _ _ _ values => .behind fun _ extent _ =>
      .pure ((spread_valueDecls tokens extent doc type values).mono (Nat.le_refl _) (by omega))

/-- The declarations that start at the next token. -/
theorem reads_topLevel (after : low ≤ place) :
    Reads place (Spread TopDecl.Tidy TopDecl.passes low) (topLevel limit) := by
  unfold topLevel
  refine .behind fun _ inGroup _ => .behind fun _ start _ => ?_
  refine .behind fun _ _ _ => .ite
    (reads_grouped .nil .append (fun _ _ _ after => reads_importSpec after) (by omega)) ?_
  refine .behind fun _ _ _ => .ite
    (reads_grouped .nil .append (fun doc _ _ after => reads_typeSpec inGroup start doc after)
      (by omega)) ?_
  refine .behind fun _ _ _ => .ite (reads_funcDecl (by omega)) ?_
  refine .behind fun _ _ _ => .ite (.map (reads_grouped .nil .append
    (fun doc _ _ after => reads_valueSpec inGroup start doc after) (by omega))
      fun _ _ _ decls => decls.map (fun _ tidy => tidy) fun _ => rfl) ?_
  refine .behind fun _ _ _ => .ite (.map (reads_grouped .nil .append
    (fun doc _ _ after => reads_valueSpec inGroup start doc after) (by omega))
      fun _ _ _ decls => decls.map (fun _ tidy => tidy) fun _ => rfl) ?_
  exact .behind fun _ _ _ => .pure (.nil (by omega))

/-- Declarations up to the end of the text. -/
theorem reads_declarations (rounds : Nat) (after : low ≤ place) :
    Reads place (Spread TopDecl.Tidy TopDecl.passes low) (declarations limit rounds) :=
  reads_rounds .nil .append reads_topLevel rounds after

end Parse

/-! ## Files -/

section Adding

open List

variable {α β : Type} {item : β} {here here' : List β}

/-- Insertion adds the value, perhaps in place of another. -/
theorem NameMap.map_values_insert (map : NameMap α) (name : String) (value : α) (view : α → β) :
    (map.insert name value).values.map view <+~ view value :: map.values.map view := by
  change ((insertEntry name value map.entries).map Prod.snd).map view <+~
    view value :: (map.entries.map Prod.snd).map view
  generalize map.entries = entries
  induction entries with
  | nil => exact Subperm.refl _
  | cons entry rest ih =>
    rw [insertEntry]
    split
    · exact Subperm.refl _
    · split
      · exact ((sublist_cons_self _ _).cons_cons (view value)).subperm
      · exact ((subperm_cons _).mpr ih).trans (Perm.swap _ _ _).subperm

/-- What is added between others is added to all. -/
theorem subperm_between (before behind : List β) (adds : here' <+~ item :: here) :
    before ++ here' ++ behind <+~ item :: (before ++ here ++ behind) := by
  have middle : before ++ here' ++ behind <+~ before ++ (item :: here) ++ behind :=
    (subperm_append_right _).mpr ((subperm_append_left _).mpr adds)
  have same : before ++ (item :: here) ++ behind ~ item :: (before ++ here ++ behind) := by
    rw [append_assoc, append_assoc]
    exact perm_middle
  exact middle.trans same.subperm

/-- What is added at the end is added. -/
theorem concat_subperm (here : List β) (item : β) : here ++ [item] <+~ item :: here :=
  (perm_append_singleton item here).subperm

end Adding

/-- The declarations of a stream are read from a place behind the package clause. -/
theorem TokenStream.declarations_of_parse {content : List Char} {stream : TokenStream}
    {name : Token}
    {decls : List TopDecl} (scanned : ofChars? content = .ok stream)
    (parsed : stream.parse = .ok (name, decls)) :
    ∃ place limit, place.Ordered ∧ ((Parse.declarations limit limit).run place).1 = decls := by
  unfold parse at parsed
  have ordered := Cursor.Stable.run (ordered_start scanned) Parse.packageClause
  rcases read : Parse.packageClause.run (Cursor.start stream) with ⟨_ | found, place⟩
  · rw [read] at parsed
    cases parsed
  · rw [read] at parsed ordered
    cases parsed
    exact ⟨place, _, ordered, rfl⟩

/-- Constants are walked as variables are. -/
def TopDecl.walked : TopDecl → TopDecl
  | .const decl => .var decl
  | other => other

namespace SourceFile

/-- A file is tidy exactly when its declarations are and no two have names in common. -/
theorem tidy_iff {file : SourceFile} :
    file.Tidy ↔ (∀ decl ∈ file.decls, decl.Tidy) ∧
      file.decls.Pairwise fun left right => left.passes.Disjoint right.passes := by
  have passes : file.declPasses = file.decls.map TopDecl.passes := by
    simp [declPasses, decls, TopDecl.passes, Function.comp_def]
  have apart : file.declPasses.Pairwise List.Disjoint ↔
      file.decls.Pairwise fun left right => left.passes.Disjoint right.passes := by
    rw [passes, List.pairwise_map]
  constructor
  · intro tidy
    refine ⟨?_, apart.mp tidy.apart⟩
    simp only [decls, List.mem_append, List.mem_map]
    rintro decl ((⟨type, member, rfl⟩ | ⟨function, member, rfl⟩) | ⟨value, member, rfl⟩)
    · exact tidy.types type member
    · exact tidy.functions function (List.mem_append.mpr member)
    · exact tidy.values value (by simpa [or_assoc] using member)
  · rintro ⟨each, different⟩
    refine ⟨fun decl member => each (.type decl) ?_, fun decl member => each (.function decl) ?_,
      fun decl member => each (.var decl) ?_, apart.mpr different⟩
    · exact List.mem_append_left _ (List.mem_append_left _ (List.mem_map_of_mem member))
    · exact List.mem_append_left _ (List.mem_append_right _ (List.mem_map_of_mem member))
    · exact List.mem_append_right _ (List.mem_map_of_mem member)

open List

/-- Adding a declaration adds it, perhaps in place of another. -/
theorem decls_add (file : SourceFile) (decl : TopDecl) :
    (file.add decl).decls <+~ decl.walked :: file.decls := by
  have blank (decl : ValueDecl) := subperm_between
    (file.types.values.map TopDecl.type ++
      (file.functions.values ++ file.methods).map TopDecl.function ++
      (file.vars.values ++ file.consts.values).map TopDecl.var) []
    (concat_subperm (file.blanks.map TopDecl.var) (TopDecl.var decl))
  cases decl with
  | importing decl => exact subperm_cons_self
  | type decl =>
    have adds := subperm_between [] ((file.functions.values ++ file.methods).map TopDecl.function ++
      (file.vars.values ++ file.consts.values ++ file.blanks).map TopDecl.var)
      (file.types.map_values_insert decl.name decl TopDecl.type)
    simpa [decls, TopDecl.walked, add] using adds
  | function decl =>
    rw [add]
    split
    · have adds := subperm_between
        (file.types.values.map TopDecl.type ++ file.functions.values.map TopDecl.function)
        ((file.vars.values ++ file.consts.values ++ file.blanks).map TopDecl.var)
        (concat_subperm (file.methods.map TopDecl.function) (TopDecl.function decl))
      simpa [decls, TopDecl.walked] using adds
    · have adds :=
        subperm_between (file.types.values.map TopDecl.type) (file.methods.map TopDecl.function ++
          (file.vars.values ++ file.consts.values ++ file.blanks).map TopDecl.var)
        (file.functions.map_values_insert decl.name decl TopDecl.function)
      simpa [decls, TopDecl.walked] using adds
  | var decl =>
    rw [add]
    split
    · simpa [decls, TopDecl.walked] using blank decl
    · have adds := subperm_between
        (file.types.values.map TopDecl.type ++
          (file.functions.values ++ file.methods).map TopDecl.function)
        ((file.consts.values ++ file.blanks).map TopDecl.var)
        (file.vars.map_values_insert decl.name decl TopDecl.var)
      simpa [decls, TopDecl.walked] using adds
  | const decl =>
    rw [add]
    split
    · simpa [decls, TopDecl.walked] using blank decl
    · have adds := subperm_between (file.types.values.map TopDecl.type ++
          (file.functions.values ++ file.methods).map TopDecl.function ++
            file.vars.values.map TopDecl.var)
        (file.blanks.map TopDecl.var) (file.consts.map_values_insert decl.name decl TopDecl.var)
      simpa [decls, TopDecl.walked] using adds

/-- Adding declarations adds some of them. -/
theorem decls_foldl_add (file : SourceFile) (decls : List TopDecl) :
    (decls.foldl SourceFile.add file).decls <+~ decls.map TopDecl.walked ++ file.decls := by
  induction decls generalizing file with
  | nil => exact Subperm.refl _
  | cons decl rest ih =>
    refine (ih (file.add decl)).trans ?_
    refine ((subperm_append_left _).mpr (decls_add file decl)).trans ?_
    exact perm_middle.subperm

/-- Declarations that have no names in common make a tidy file. -/
theorem tidy_foldl_add {low high : Nat} {file : SourceFile} {decls : List TopDecl}
    (none : file.decls = []) (spread : Spread TopDecl.Tidy TopDecl.passes low high decls) :
    (decls.foldl SourceFile.add file).Tidy := by
  have walked : Spread TopDecl.Tidy TopDecl.passes low high (decls.map TopDecl.walked) := by
    refine spread.map (fun decl tidy => ?_) fun decl => ?_
    · cases decl <;> exact tidy
    · cases decl <;> rfl
  have added := decls_foldl_add file decls
  rw [none, append_nil] at added
  obtain ⟨some, same, fewer⟩ := added
  refine tidy_iff.mpr ⟨fun decl member => ?_, ?_⟩
  · exact (walked.each decl (fewer.subset (same.mem_iff.mpr member))).1
  · refine (same.pairwise_iff ?_).mp (walked.apart.sublist fewer)
    exact fun apart _ here there => apart there here

/-- **Files that are read are tidy.** -/
theorem tidy_of_parse {path content : String} {file : SourceFile}
    (parsed : SourceFile.parse path content = .ok file) : file.Tidy := by
  unfold SourceFile.parse at parsed
  cases scanned : TokenStream.ofChars? content.toList with
  | error failure =>
    rw [scanned] at parsed
    cases parsed
  | ok stream =>
    rw [scanned] at parsed
    simp only at parsed
    split at parsed
    · cases parsed
    · split at parsed
      · cases parsed
      · rename_i name decls found
        cases parsed
        obtain ⟨place, limit, ordered, rfl⟩ := TokenStream.declarations_of_parse scanned found
        exact tidy_foldl_add rfl (Parse.reads_declarations limit (Nat.le_refl _) place ordered rfl)

end SourceFile

end GoRefactor
