import GoRefactor.Proofs.Symbol.Acceptance
import GoRefactor.Proofs.Symbol.Retention

/-!
# The index without private declarations

A build without private declarations has fewer symbols to settle uses on, and yet exported symbols
keep their references: a use of an exported name sees the same candidates in both builds, and a use
of another name is settled on no exported symbol in either.

Packages and imports are not told apart from private declarations by their names. A private
declaration that shares its name with an import may take the place of the import in the full build,
or make a use ambiguous, so the full build may have fewer references to packages and imports.
-/

namespace GoRefactor

/-! ## Tables as lists -/

namespace SymbolTable

variable {table : SymbolTable}

/-- Symbols with a name that pass a test, read off the list of symbols. -/
theorem filter_named (filed : table = .ofList table.toList) (name : String)
    (test : Symbol → Bool) :
    (table.named name).filter test =
      table.toList.filter fun symbol => symbol.name == name && test symbol := by
  rw [named_eq_filter filed, List.filter_filter]
  exact List.filter_congr fun symbol _ => Bool.and_comm _ _

/-- Of the symbols that are declared at a span, the last one is found there. -/
theorem atOrigin_eq_getLast? (filed : table = .ofList table.toList) (file : String) (span : Span) :
    table.atOrigin file span =
      (table.toList.filter fun symbol =>
        symbol.file == file && symbol.nameSpan == span).getLast? := by
  unfold atOrigin
  have placed : table.byOffset.lookup span.start =
      table.toList.filter fun symbol => symbol.nameSpan.start == span.start := by
    rw [filed]
    change Postings.lookup (.ofList _ _) _ = _
    rw [Postings.lookup_ofList]
    rfl
  rw [placed, List.filter_filter]
  congr 1
  refine List.filter_congr fun symbol _ => ?_
  cases same : (symbol.file == file && symbol.nameSpan == span) with
  | false => rfl
  | true =>
    rw [eq_of_beq (Bool.and_eq_true_iff.mp same).2, beq_self_eq_true]
    rfl

/-- Numbers of symbols grow along a table that is numbered from zero. -/
theorem pairwise_ids (numbered : table.toList.map (·.id) = List.range table.size)
    (test : Symbol → Bool) : ((table.toList.filter test).map (·.id)).Pairwise (· < ·) := by
  have sublist : ((table.toList.filter test).map (·.id)).Sublist (List.range table.size) :=
    numbered ▸ (List.filter_sublist.map _)
  exact List.pairwise_lt_range.sublist sublist

end SymbolTable

/-- Numbers in strict order are in order, and none of them is dropped. -/
theorem dropRepeats_sortBy_of_pairwise {numbers : List Nat} (strict : numbers.Pairwise (· < ·)) :
    dropRepeats (sortBy (fun left right => left ≤ right) numbers) = numbers := by
  have sorted := pairwise_dropRepeats_sortBy numbers
  have same : ∀ number, number ∈ dropRepeats (sortBy (fun left right => left ≤ right) numbers) ↔
      number ∈ numbers := fun number => by rw [mem_dropRepeats, mem_sortBy]
  exact (List.perm_ext_iff_of_nodup (sorted.imp Nat.ne_of_lt) (strict.imp Nat.ne_of_lt)).mpr same
    |>.eq_of_pairwise (fun _ _ _ _ low high => absurd low (Nat.lt_asymm high)) sorted strict

/-- Lists that correspond have last members that do. -/
theorem rel_getLast? {α β : Type} {related : α → β → Prop} {values : List α} {images : List β}
    (matched : List.Forall₂ related values images) :
    Option.Rel related values.getLast? images.getLast? := by
  have reversed := List.rel_reverse matched
  rw [List.getLast?_eq_head?_reverse, List.getLast?_eq_head?_reverse]
  generalize values.reverse = values at reversed
  generalize images.reverse = images at reversed
  cases reversed with
  | nil => exact .none
  | cons one _ => exact .some one

/-- The last member of a list is the last of those that pass a test, if it passes. -/
theorem getLast?_filter_of_getLast? {α : Type} {test : α → Bool} {values : List α} {last : α}
    (ends : values.getLast? = some last) (passes : test last = true) :
    (values.filter test).getLast? = some last := by
  obtain ⟨before, rfl⟩ := List.getLast?_eq_some_iff.mp ends
  rw [List.filter_append, List.filter_cons_of_pos passes, List.filter_nil, List.getLast?_concat]

/-- Lists that correspond do so after a test that does not tell the related apart. -/
theorem forall₂_filter {α β : Type} {related : α → β → Prop} {test : α → Bool} {test' : β → Bool}
    (same : ∀ value image, related value image → test value = test' image) {values : List α}
    {images : List β} (matched : List.Forall₂ related values images) :
    List.Forall₂ related (values.filter test) (images.filter test') := by
  induction matched with
  | nil => exact .nil
  | @cons value image _ _ one _ ih =>
    rw [List.filter_cons, List.filter_cons, same _ _ one]
    split
    · exact .cons one ih
    · exact ih

/-- A member of a list with distinct numbers is told by its number. -/
theorem getElem_eq_iff_of_pairwise {α : Type} {number : α → Nat} {values : List α}
    (strict : (values.map number).Pairwise (· < ·)) {place place' : Nat}
    (bound : place < values.length) (bound' : place' < values.length) :
    number values[place] = number values[place'] ↔ place = place' := by
  have distinct : (values.map number).Nodup := strict.imp Nat.ne_of_lt
  rw [← List.getElem_map (h := by simpa using bound) number,
    ← List.getElem_map (h := by simpa using bound') number]
  exact distinct.getElem_inj_iff

/-- Members at the same places of two lists with distinct numbers have equal numbers together. -/
theorem eq_iff_of_mem_zip {α β : Type} {number : α → Nat} {number' : β → Nat} {values : List α}
    {images : List β} (strict : (values.map number).Pairwise (· < ·))
    (strict' : (images.map number').Pairwise (· < ·)) {value other : α} {image other' : β}
    (member : (value, image) ∈ values.zip images) (member' : (other, other') ∈ values.zip images) :
    number value = number other ↔ number' image = number' other' := by
  obtain ⟨place, bound, same⟩ := List.getElem_of_mem member
  obtain ⟨place', bound', same'⟩ := List.getElem_of_mem member'
  simp only [List.getElem_zip, Prod.mk.injEq] at same same'
  simp only [List.length_zip, Nat.lt_min] at bound bound'
  obtain ⟨rfl, rfl⟩ := same
  obtain ⟨rfl, rfl⟩ := same'
  rw [getElem_eq_iff_of_pairwise strict, getElem_eq_iff_of_pairwise strict']

/-! ## Symbols of both builds -/

/-- Symbols of two builds that are the same but for their numbers, and are both those of a given
pair or neither. -/
def Twin (target target' left right : Symbol) : Prop :=
  left.unnumbered = right.unnumbered ∧ (left.id = target.id ↔ right.id = target'.id)

/-- Tables of a build without private declarations and of a full one, and a symbol that both
have. -/
structure Paired (left right : SymbolTable) (target target' : Symbol) : Prop where
  /-- The smaller table is filed. -/
  filed : left = .ofList left.toList
  /-- So is the full one. -/
  filed' : right = .ofList right.toList
  /-- The smaller table is numbered from zero. -/
  numbered : left.toList.map (·.id) = List.range left.size
  /-- So is the full one. -/
  numbered' : right.toList.map (·.id) = List.range right.size
  /-- The smaller table has what is public. -/
  matched : List.Forall₂ (Twin target target') left.toList (right.toList.filter Symbol.isPublic)
  /-- The symbol is in the smaller table. -/
  member : target ∈ left.toList
  /-- It is in the full table. -/
  member' : target' ∈ right.toList
  /-- It is the same in both. -/
  same : target.unnumbered = target'.unnumbered
  /-- Whatever is neither a package nor an import is public exactly when its name is exported. -/
  visible : ∀ symbol ∈ right.toList,
    symbol.isPublic = (symbol.isOuter || isExported symbol.name)
  /-- Declarations at one place have one name, imports apart. -/
  spelled : ∀ symbol ∈ right.toList, ∀ other ∈ right.toList, symbol.kind ≠ .imported →
    other.kind ≠ .imported → symbol.file = other.file → symbol.nameSpan = other.nameSpan →
    symbol.name = other.name

namespace Paired

variable {left right : SymbolTable} {target target' : Symbol}
  (paired : Paired left right target target')
include paired

/-- The counterpart of a public target is public too. -/
theorem isPublic : target'.isPublic = true := by
  obtain ⟨symbol, inside, same, ids⟩ := exists_mem_of_forall₂ paired.matched.flip paired.member
  obtain ⟨listed, visible⟩ := List.mem_filter.mp inside
  rwa [← SymbolTable.eq_of_id_eq paired.numbered' listed paired.member' (ids.mp rfl)]

/-- The symbols of the two tables that pass a test are twins, private ones left out. -/
theorem filter (test : Symbol → Bool)
    (even : ∀ symbol : Symbol, test symbol = test symbol.unnumbered) :
    List.Forall₂ (Twin target target') (left.toList.filter test)
      ((right.toList.filter test).filter Symbol.isPublic) := by
  rw [List.filter_comm]
  refine forall₂_filter (fun first second twin => ?_) paired.matched
  rw [even first, twin.1, ← even second]

/-- Whatever has the name of the symbol is public, unless the symbol is a package or an import. -/
theorem isPublic_of_name (proper : target.isOuter = false) {symbol : Symbol}
    (listed : symbol ∈ right.toList) (named : symbol.name = target.name) :
    symbol.isPublic = true := by
  have outer : target'.isOuter = false := (congrArg Symbol.isOuter paired.same).symm.trans proper
  have name : target'.name = target.name := (congrArg Symbol.name paired.same).symm
  have visible := paired.visible target' paired.member'
  rw [paired.isPublic, outer, Bool.false_or, name] at visible
  rw [paired.visible symbol listed, named, ← visible, Bool.or_true]

/-- Candidates that settle on the symbol in the full build do so in the other, and conversely unless
the symbol is a package or an import. -/
theorem settled_iff (test : Symbol → Bool)
    (even : ∀ symbol : Symbol, test symbol = test symbol.unnumbered) (name : String)
    (named : ∀ symbol : Symbol, test symbol = true → symbol.name = name) :
    ((right.toList.filter test).map (·.id) = [target'.id] →
        (left.toList.filter test).map (·.id) = [target.id]) ∧
      (target.isOuter = false → (left.toList.filter test).map (·.id) = [target.id] →
        (right.toList.filter test).map (·.id) = [target'.id]) := by
  have matched := paired.filter test even
  constructor
  · intro settled
    obtain ⟨symbol, alone, number⟩ := List.map_eq_singleton_iff.mp settled
    have listed : symbol ∈ right.toList :=
      (List.mem_filter.mp (alone ▸ List.mem_cons_self : symbol ∈ right.toList.filter test)).1
    cases SymbolTable.eq_of_id_eq paired.numbered' listed paired.member' number
    rw [alone, List.filter_cons_of_pos paired.isPublic, List.filter_nil] at matched
    generalize left.toList.filter test = candidates at matched
    cases matched with
    | cons twin rest =>
      cases rest
      exact congrArg (fun id => [id]) (twin.2.mpr rfl)
  · intro proper settled
    obtain ⟨symbol, alone, number⟩ := List.map_eq_singleton_iff.mp settled
    have inside := List.mem_filter.mp
      (alone ▸ List.mem_cons_self : symbol ∈ left.toList.filter test)
    cases SymbolTable.eq_of_id_eq paired.numbered inside.1 paired.member number
    -- Every candidate has the exported name, so all of them are public.
    have all : (right.toList.filter test).filter Symbol.isPublic = right.toList.filter test :=
      List.filter_eq_self.mpr fun other member =>
        paired.isPublic_of_name proper (List.mem_filter.mp member).1
          ((named other (List.mem_filter.mp member).2).trans (named target inside.2).symm)
    rw [alone, all] at matched
    generalize right.toList.filter test = candidates at matched
    cases matched with
    | cons twin rest =>
      cases rest
      exact congrArg (fun id => [id]) (twin.2.mp rfl)

/-- A place that is the symbol's in the full build is so in the other, and conversely unless the
symbol is a package or an import. -/
theorem atOrigin_iff (file : String) (span : Span) :
    ((right.atOrigin file span).map (·.id) = some target'.id →
        (left.atOrigin file span).map (·.id) = some target.id) ∧
      (target.isOuter = false → (left.atOrigin file span).map (·.id) = some target.id →
        (right.atOrigin file span).map (·.id) = some target'.id) := by
  rw [SymbolTable.atOrigin_eq_getLast? paired.filed,
    SymbolTable.atOrigin_eq_getLast? paired.filed']
  have matched := paired.filter
    (fun symbol => symbol.file == file && symbol.nameSpan == span) fun _ => rfl
  generalize tested : (fun symbol : Symbol => symbol.file == file && symbol.nameSpan == span) =
    test at matched
  have last := rel_getLast? matched
  constructor
  · intro settled
    obtain ⟨symbol, ends, number⟩ := Option.map_eq_some_iff.mp settled
    have listed : symbol ∈ right.toList := (List.mem_filter.mp (List.mem_of_getLast? ends)).1
    cases SymbolTable.eq_of_id_eq paired.numbered' listed paired.member' number
    rw [getLast?_filter_of_getLast? ends paired.isPublic] at last
    generalize (left.toList.filter test).getLast? = found at last
    cases last with
    | some twin => exact congrArg some (twin.2.mpr rfl)
  · intro proper settled
    obtain ⟨symbol, ends, number⟩ := Option.map_eq_some_iff.mp settled
    have inside := List.mem_filter.mp (List.mem_of_getLast? ends)
    cases SymbolTable.eq_of_id_eq paired.numbered inside.1 paired.member number
    -- Whatever else stands at the place has the exported name or is an import.
    have all : (right.toList.filter test).filter Symbol.isPublic = right.toList.filter test := by
      refine List.filter_eq_self.mpr fun other member => ?_
      obtain ⟨listed, stands⟩ := List.mem_filter.mp member
      by_cases imported : other.kind = .imported
      · simp [Symbol.isPublic, Symbol.isOuter, imported]
      · refine paired.isPublic_of_name proper listed ?_
        subst tested
        have place := inside.2
        simp only [Bool.and_eq_true, beq_iff_eq] at stands place
        have kind : target'.kind ≠ .imported := by
          intro kind
          have outer := (congrArg Symbol.isOuter paired.same).symm.trans proper
          simp [Symbol.isOuter, Symbol.unnumbered, kind] at outer
        have file : target'.file = target.file := (congrArg Symbol.file paired.same).symm
        have span : target'.nameSpan = target.nameSpan :=
          (congrArg Symbol.nameSpan paired.same).symm
        have name : target'.name = target.name := (congrArg Symbol.name paired.same).symm
        rw [← name]
        exact paired.spelled other listed target' paired.member' imported kind
          (by rw [file, stands.1, place.1]) (by rw [span, stands.2, place.2])
    rw [all, ends] at last
    generalize (right.toList.filter test).getLast? = found at last
    cases last with
    | some twin => exact congrArg some (twin.2.mp rfl)

end Paired

/-! ## Uses of a symbol -/

/-- Place and kind of a use of a symbol apart from its declared name. -/
def Symbol.usedBy (target : Symbol) (file : String) : Use → Option (Span × ReferenceKind)
  | .found id span kind =>
    if id = target.id ∧ target.declaredAt file span = false then some (span, kind) else none
  | _ => none

/-- A use of a symbol stands where it does. -/
theorem Symbol.span?_of_usedBy {target : Symbol} {file : String} {use : Use} {span : Span}
    {kind : ReferenceKind} (used : target.usedBy file use = some (span, kind)) :
    use.span? = some span := by
  cases use with
  | found id place kind' =>
    simp only [usedBy, Option.ite_none_right_eq_some, Option.some.injEq, Prod.mk.injEq] at used
    exact congrArg some used.2.1
  | ambiguous name place candidates => cases used
  | unresolved => cases used

/-- Of a use that settles on candidates, a target is used only if it is the only one. -/
theorem filterMap_uses {ids : List Nat} (strict : ids.Pairwise (· < ·)) (target : Symbol)
    (file name : String) (span : Span) (kind : ReferenceKind) :
    ((Resolution.ofCandidates ids).uses name span kind).filterMap (target.usedBy file) =
      if ids = [target.id] ∧ target.declaredAt file span = false then [(span, kind)] else [] := by
  unfold Resolution.ofCandidates
  rw [dropRepeats_sortBy_of_pairwise strict]
  match ids with
  | [] => simp [Resolution.uses, Symbol.usedBy]
  | [id] =>
    simp only [Resolution.uses, Symbol.usedBy, List.filterMap_cons, List.filterMap_nil,
      List.cons.injEq, and_true]
    split <;> simp_all
  | first :: second :: rest => simp [Resolution.uses, Symbol.usedBy]

/-- Uses of what is declared at a span. -/
theorem filterMap_usesAt (table : SymbolTable) (target : Symbol) (path file : String)
    (nameSpan span : Span) (kind : ReferenceKind) :
    (table.usesAt file nameSpan span kind).filterMap (target.usedBy path) =
      if (table.atOrigin file nameSpan).map (·.id) = some target.id ∧
        target.declaredAt path span = false then [(span, kind)] else [] := by
  unfold SymbolTable.usesAt
  cases table.atOrigin file nameSpan with
  | none => simp
  | some symbol =>
    simp only [Option.map_some, Option.toList_some, Symbol.usedBy, List.filterMap_cons,
      List.filterMap_nil, Option.some.injEq]
    split <;> simp_all

/-- What two walks note of a symbol: the first has whatever the second has, and the second no less
if the symbol is neither a package nor an import and the first uses have its name. -/
def AgreeOn (file : SourceFile) (target target' : Symbol) (first second : List Use) : Prop :=
  (target.isOuter = false →
    (∀ use ∈ first, ∀ span kind, target.usedBy file.path use = some (span, kind) →
      file.text span = target.name) →
    first.filterMap (target.usedBy file.path) = second.filterMap (target'.usedBy file.path)) ∧
  (second.filterMap (target'.usedBy file.path)).Sublist (first.filterMap (target.usedBy file.path))

/-- Single uses agree if they are of the symbol together. -/
theorem agreeOn_of_iff {file : SourceFile} {target target' : Symbol} {first second : List Use}
    {entry : Span × ReferenceKind} {settled settled' : Prop} [Decidable settled]
    [Decidable settled']
    (one : first.filterMap (target.usedBy file.path) = if settled then [entry] else [])
    (other : second.filterMap (target'.usedBy file.path) = if settled' then [entry] else [])
    (later : settled' → settled) (earlier : target.isOuter = false → settled → settled') :
    AgreeOn file target target' first second := by
  unfold AgreeOn
  rw [one, other]
  by_cases met : settled'
  · rw [if_pos met, if_pos (later met)]
    exact ⟨fun _ _ => rfl, List.Sublist.refl _⟩
  · rw [if_neg met]
    exact ⟨fun proper _ => if_neg fun held => met (earlier proper held), List.nil_sublist _⟩

namespace Resolver

variable {resolver : Resolver} {left right : SymbolTable} {target target' : Symbol}

/-- The candidates with a name that pass a test agree. -/
theorem agreeOn_candidates (paired : Paired left right target target') {name : String}
    {span : Span} (kind : ReferenceKind) {test : Symbol → Bool}
    (even : ∀ symbol : Symbol, test symbol = test symbol.unnumbered) :
    AgreeOn resolver.file target target'
      ((Resolution.ofCandidates (((left.named name).filter test).map (·.id))).uses name span kind)
      ((Resolution.ofCandidates (((right.named name).filter test).map (·.id))).uses name span
        kind) := by
  rw [SymbolTable.filter_named paired.filed, SymbolTable.filter_named paired.filed']
  obtain ⟨later, earlier⟩ := paired.settled_iff
    (fun symbol => symbol.name == name && test symbol)
    (fun symbol => by rw [even symbol]; rfl) name
    (fun symbol passes => eq_of_beq (Bool.and_eq_true_iff.mp passes).1)
  have touched : target'.declaredAt resolver.file.path span =
      target.declaredAt resolver.file.path span :=
    (congrArg (Symbol.declaredAt · resolver.file.path span) paired.same).symm
  refine agreeOn_of_iff (filterMap_uses (SymbolTable.pairwise_ids paired.numbered _) ..)
    (filterMap_uses (SymbolTable.pairwise_ids paired.numbered' _) ..) ?_ ?_
  · rintro ⟨settled, apart⟩
    exact ⟨later settled, touched ▸ apart⟩
  · rintro proper ⟨settled, apart⟩
    exact ⟨earlier proper settled, touched.trans apart⟩

/-- Candidates with a name that pass a test are absent exactly when nothing is settled. -/
theorem candidates_eq_nil_iff {table : SymbolTable} (filed : table = .ofList table.toList)
    {name : String} {test : Symbol → Bool} :
    Resolution.ofCandidates (((table.named name).filter test).map (·.id)) = .unresolved ↔
      table.toList.filter (fun symbol => symbol.name == name && test symbol) = [] := by
  rw [SymbolTable.filter_named filed]
  generalize table.toList.filter _ = candidates
  constructor
  · intro opened
    cases candidates with
    | nil => rfl
    | cons head rest =>
      have kept : head.id ∈ dropRepeats (sortBy (fun left right => left ≤ right)
          ((head :: rest).map (·.id))) := by
        rw [mem_dropRepeats, mem_sortBy]
        exact List.mem_cons_self
      unfold Resolution.ofCandidates at opened
      split at opened
      · rename_i gone
        rw [gone] at kept
        cases kept
      · cases opened
      · cases opened
  · rintro rfl
    rfl

/-- Walks with the two tables note the same of the symbol, up to `AgreeOn`. -/
theorem comparable_agreeOn (paired : Paired left right target target')
    (spelled : ∀ mention ∈ resolver.file.mentions, resolver.file.text mention.2 = mention.1) :
    resolver.Comparable left right (AgreeOn resolver.file target target') := by
  have closed {qualifier name : String} :
      (resolver.withTable right).qualifiedSuffix qualifier name = .unresolved →
        (resolver.withTable left).qualifiedSuffix qualifier name = .unresolved := by
    intro opened
    have absent := (candidates_eq_nil_iff paired.filed').mp opened
    refine (candidates_eq_nil_iff paired.filed).mpr ?_
    have matched := paired.filter (fun symbol => symbol.name == name &&
      endsQualified symbol.qualifiedName s!"{qualifier}.{name}") fun _ => rfl
    rw [absent] at matched
    exact List.forall₂_nil_right_iff.mp matched
  refine ⟨⟨fun _ _ => rfl, List.Sublist.refl _⟩, ?_, ⟨fun _ _ => rfl, List.Sublist.refl _⟩, ?_, ?_,
    ?_, closed, ?_⟩
  · intro first second first' second' one other
    unfold AgreeOn at one other ⊢
    simp only [List.filterMap_append, List.forall_mem_append]
    exact ⟨fun proper named => by rw [one.1 proper named.1, other.1 proper named.2],
      one.2.append other.2⟩
  · intro name file span nameSpan kind _ _
    obtain ⟨later, earlier⟩ := paired.atOrigin_iff file nameSpan
    have touched : target'.declaredAt resolver.file.path span =
        target.declaredAt resolver.file.path span :=
      (congrArg (Symbol.declaredAt · resolver.file.path span) paired.same).symm
    refine agreeOn_of_iff (filterMap_usesAt ..) (filterMap_usesAt ..) ?_ ?_
    · rintro ⟨settled, apart⟩
      exact ⟨later settled, touched ▸ apart⟩
    · rintro proper ⟨settled, apart⟩
      exact ⟨earlier proper settled, touched.trans apart⟩
  · intro name span kind _
    exact agreeOn_candidates paired kind fun _ => rfl
  · intro qualifier name span kind _ _
    exact agreeOn_candidates paired kind fun _ => rfl
  · intro qualifier name span kind mention opened settled out placed
    obtain ⟨later, -⟩ := paired.settled_iff (fun symbol => symbol.name == name &&
      endsQualified symbol.qualifiedName s!"{qualifier}.{name}") (fun _ => rfl) name
      fun symbol passes => eq_of_beq (Bool.and_eq_true_iff.mp passes).1
    have absent := (candidates_eq_nil_iff paired.filed).mp opened
    -- The full build settles the use on private symbols only.
    have second : (((resolver.withTable right).qualifiedSuffix qualifier name).uses name span
        kind).filterMap (target'.usedBy resolver.file.path) = [] := by
      change ((Resolution.ofCandidates (((right.named name).filter _).map _)).uses _ _ _).filterMap
        _ = _
      rw [SymbolTable.filter_named paired.filed',
        filterMap_uses (SymbolTable.pairwise_ids paired.numbered' _)]
      refine if_neg fun ⟨alone, _⟩ => ?_
      have none := later alone
      rw [absent] at none
      cases none
    unfold AgreeOn
    rw [second]
    refine ⟨fun proper named => ?_, List.nil_sublist _⟩
    refine List.filterMap_eq_nil_iff.mpr fun use noted => ?_
    cases used : target.usedBy resolver.file.path use with
    | none => rfl
    | some entry =>
      -- A use of the symbol would have its name, and then some candidate would be public.
      exfalso
      obtain ⟨place, kind'⟩ := entry
      have stands : place = span := placed use noted place (Symbol.span?_of_usedBy used)
      have name_eq : name = target.name :=
        (spelled _ mention).symm.trans (stands ▸ named use noted place kind' used)
      have matched := paired.filter (fun symbol => symbol.name == name &&
        endsQualified symbol.qualifiedName s!"{qualifier}.{name}") fun _ => rfl
      rw [absent, List.forall₂_nil_left_iff, List.filter_eq_nil_iff] at matched
      refine settled ((candidates_eq_nil_iff paired.filed').mpr ?_)
      refine List.eq_nil_iff_forall_not_mem.mpr fun symbol member => matched symbol member ?_
      obtain ⟨listed, passes⟩ := List.mem_filter.mp member
      exact paired.isPublic_of_name proper listed
        ((eq_of_beq (Bool.and_eq_true_iff.mp passes).1).trans name_eq)

end Resolver

/-! ## References to a symbol -/

/-- The reference without its number and that of its target. -/
def Reference.bare (reference : Reference) : Reference := { reference with id := 0, symbol := 0 }

namespace Resolver

variable {resolver : Resolver} {target : Symbol}

/-- The bare reference that a use of a symbol leaves. -/
def cited (resolver : Resolver) (context : String) (entry : Span × ReferenceKind) : Reference :=
  ⟨0, 0, resolver.file.path, entry.1,
    (LineIndex.ofText resolver.file.content).region entry.1, context, entry.2⟩

/-- The reference that a use leaves, if it is to a given symbol. -/
theorem reference?_bind (found : resolver.symbols.get? target.id = some target) (context : String)
    (use : Use) :
    ((resolver.reference? context use).bind fun reference =>
        if reference.symbol == target.id then some reference.bare else none) =
      (target.usedBy resolver.file.path use).map (resolver.cited context) := by
  cases use with
  | found id span kind =>
    simp only [reference?, Symbol.usedBy]
    by_cases same : id = target.id
    · subst same
      rw [found]
      dsimp only
      cases target.declaredAt resolver.file.path span <;> simp [Reference.bare, cited]
    · rw [if_neg fun met => same met.1]
      cases resolver.symbols.get? id with
      | none => rfl
      | some other =>
        dsimp only
        split <;> simp [same]
  | ambiguous name span candidates => rfl
  | unresolved => rfl

/-- The references of a file to a symbol are its uses of the symbol, in the order of the text. -/
theorem references_to (found : resolver.symbols.get? target.id = some target) :
    (resolver.references.filter fun reference => reference.symbol == target.id).map
        Reference.bare =
      (inTextOrder Prod.fst resolver.topUses).flatMap fun top =>
        (top.2.2.filterMap (target.usedBy resolver.file.path)).map (resolver.cited top.2.1) := by
  have picked (references : List Reference) :
      (references.filter fun reference => reference.symbol == target.id).map Reference.bare =
        references.filterMap fun reference =>
          if reference.symbol == target.id then some reference.bare else none := by
    rw [← List.filterMap_eq_map, ← List.filterMap_eq_filter, List.filterMap_filterMap]
    refine List.filterMap_congr fun reference _ => ?_
    simp only [Option.guard_apply]
    split <;> rfl
  unfold references fileUses
  rw [picked, List.filterMap_filterMap, List.filterMap_flatMap]
  refine List.flatMap_congr fun top _ => ?_
  rw [List.filterMap_map, List.map_filterMap]
  exact List.filterMap_congr fun use _ => reference?_bind found top.2.1 use

end Resolver

/-- Parts that agree one by one agree when they are put in a row. -/
theorem flatMap_of_forall₂ {α β γ : Type} {related : α → β → Prop} {part : α → List γ}
    {part' : β → List γ} {values : List α} {images : List β} {exact : Prop}
    (matched : List.Forall₂ related values images)
    (each : ∀ value ∈ values, ∀ image, related value image →
      (exact → part value = part' image) ∧ (part' image).Sublist (part value)) :
    (exact → values.flatMap part = images.flatMap part') ∧
      (images.flatMap part').Sublist (values.flatMap part) := by
  induction matched with
  | nil => exact ⟨fun _ => rfl, List.Sublist.refl _⟩
  | cons one _ ih =>
    obtain ⟨here, rest⟩ := List.forall_mem_cons.mp each
    obtain ⟨same, within⟩ := here _ one
    obtain ⟨others, inside⟩ := ih rest
    simp only [List.flatMap_cons]
    exact ⟨fun given => by rw [same given, others given], within.append inside⟩

namespace Resolver

variable {resolver : Resolver}

/-- A use of a symbol has its name, if the references of the file are addressed. -/
theorem text_of_usedBy {target : Symbol} (proper : target.isOuter = false)
    (found : resolver.symbols.get? target.id = some target)
    (addressed : ∀ reference ∈ resolver.references, resolver.Addresses reference)
    {context : String} {use : Use} (noted : (context, use) ∈ resolver.fileUses) {span : Span}
    {kind : ReferenceKind} (used : target.usedBy resolver.file.path use = some (span, kind)) :
    resolver.file.text span = target.name := by
  have left := reference?_bind found context use
  rw [used, Option.map_some] at left
  obtain ⟨reference, given, same⟩ := Option.bind_eq_some_iff.mp left
  simp only [Option.ite_none_right_eq_some, beq_iff_eq, Option.some.injEq] at same
  obtain ⟨-, other, stands, -, text⟩ :=
    addressed reference (List.mem_filterMap.mpr ⟨_, noted, given⟩)
  rw [same.1, found] at stands
  cases stands
  have place : reference.span = span := congrArg Reference.span same.2
  have kindOf : (target.kind == .imported) = false := (Bool.or_eq_false_iff.mp proper).2
  rw [place] at text
  rw [text, expectedText, kindOf]
  rfl

/-- The references of a file to a symbol agree for both tables. -/
theorem references_agree {left right : SymbolTable} {target target' : Symbol}
    (paired : Paired left right target target')
    (spelled : ∀ mention ∈ resolver.file.mentions, resolver.file.text mention.2 = mention.1)
    (addressed : ∀ reference ∈ (resolver.withTable left).references,
      (resolver.withTable left).Addresses reference) :
    let first := ((resolver.withTable left).references.filter fun reference =>
      reference.symbol == target.id).map Reference.bare
    let second := ((resolver.withTable right).references.filter fun reference =>
      reference.symbol == target'.id).map Reference.bare
    (target.isOuter = false → first = second) ∧ second.Sublist first := by
  intro first second
  have found := SymbolTable.get?_id paired.numbered paired.member
  have found' := SymbolTable.get?_id paired.numbered' paired.member'
  have one : first = _ := (resolver.withTable left).references_to found
  have other : second = _ := (resolver.withTable right).references_to found'
  rw [one, other]
  refine flatMap_of_forall₂ (inOrder_together (comparable_agreeOn paired spelled))
    fun top listed top' ⟨context, agree⟩ => ?_
  rw [← context]
  refine ⟨fun proper => ?_, agree.2.map _⟩
  refine congrArg (List.map _) (agree.1 proper fun use noted span kind used => ?_)
  exact text_of_usedBy proper found addressed
    (List.mem_flatMap.mpr ⟨top, listed, List.mem_map_of_mem noted⟩) used

end Resolver

/-! ## Both builds -/

/-- Every name that the trees of a module mention stands in the text. -/
def Module.Spelled (module : Module) : Prop :=
  ∀ file ∈ module.sourceFiles, ∀ mention ∈ file.mentions, file.text mention.2 = mention.1

namespace Module

variable {module : Module} {tests : Bool} {first second : Index}

/-- The references to a symbol, read off the walks. -/
theorem bare_toSymbol {options : IndexOptions} {index : Index}
    (built : (module.index options).run = .ok (.ok index)) (id : Nat) :
    (index.references.toSymbol id).map Reference.bare =
      (module.resolvers options index.symbols).flatMap fun resolver =>
        (resolver.references.filter fun reference => reference.symbol == id).map
          Reference.bare := by
  have same := unnumbered_references built
  calc (index.references.toSymbol id).map Reference.bare
      = ((index.references.references.map Reference.unnumbered).filter
          fun reference => reference.symbol == id).map Reference.bare := by
        rw [toSymbol_eq_filter built, List.filter_map, List.map_map]
        rfl
    _ = _ := by rw [same, List.filter_flatMap, List.map_flatMap]

/-- Symbols of the two builds that stand in the same order are paired. -/
theorem paired_of_mem_zip (hidden : module.ParamsPrivate)
    (built : (module.index (.publicOnly tests)).run = .ok (.ok first))
    (built' : (module.index (.withPrivate tests)).run = .ok (.ok second))
    {target target' : Symbol}
    (together : (target, target') ∈
      first.symbols.toList.zip (second.symbols.toList.filter Symbol.isPublic)) :
    Paired first.symbols second.symbols target target' := by
  obtain ⟨-, drawn, -, -, -⟩ := index_spec built
  obtain ⟨distinct, drawn', -, -, -⟩ := index_spec built'
  obtain ⟨filed, numbered, -, -⟩ := symbols_spec drawn
  obtain ⟨filed', numbered', -, addressed⟩ := symbols_spec drawn'
  obtain ⟨length, same⟩ := List.forall₂_iff_zip.mp (symbols_publicOnly drawn drawn')
  refine ⟨filed, filed', numbered, numbered', ?_, (List.of_mem_zip together).1,
    (List.mem_filter.mp (List.of_mem_zip together).2).1, same together, ?_, ?_⟩
  · refine List.forall₂_iff_zip.mpr ⟨length, fun {symbol symbol'} other => ⟨same other, ?_⟩⟩
    refine eq_iff_of_mem_zip ?_ (SymbolTable.pairwise_ids numbered' _) other together
    rw [numbered]
    exact List.pairwise_lt_range
  · intro symbol member
    unfold Symbol.isPublic
    rw [exported_of_mem_symbols drawn' member]
    by_cases kind : symbol.kind = .parameter
    · rw [isExported_of_parameter drawn' hidden member kind, Bool.false_and]
    · rw [bne_iff_ne.mpr kind, Bool.and_true]
  · intro symbol member other member' proper proper' file span
    obtain ⟨owner, held, -, path, stands⟩ := addressed symbol member
    obtain ⟨owner', held', -, path', stands'⟩ := addressed other member'
    have shared : owner = owner' := by
      have found := module.file?_path distinct held
      rw [← path, file, path', module.file?_path distinct held'] at found
      exact (Option.some.inj found).symm
    rw [← stands proper, ← stands' proper', shared, span]

end Module

/-- The references to a symbol of an index, without numbers. -/
def Index.citations (index : Index) (symbol : Symbol) : List Reference :=
  (index.references.toSymbol symbol.id).map Reference.bare

/-- **A build without private declarations agrees with the full one.** Its symbols are the public
ones of the full build, in the same order. Each of them has the references that it has in the full
build, unless it is a package or an import, which may have more. -/
theorem public_index_agrees {module : Module} {tests : Bool} {first second : Index}
    (hidden : module.ParamsPrivate) (spelled : module.Spelled)
    (built : (module.index (.publicOnly tests)).run = .ok (.ok first))
    (built' : (module.index (.withPrivate tests)).run = .ok (.ok second)) :
    List.Forall₂ (fun symbol symbol' =>
        symbol.unnumbered = symbol'.unnumbered ∧
          (symbol.isOuter = false → first.citations symbol = second.citations symbol') ∧
          (second.citations symbol').Sublist (first.citations symbol))
      first.symbols.toList (second.symbols.toList.filter Symbol.isPublic) := by
  obtain ⟨-, drawn, -, -, addressed⟩ := Module.index_spec built
  obtain ⟨-, drawn', -, -, -⟩ := Module.index_spec built'
  have matched := Module.symbols_publicOnly drawn drawn'
  refine List.forall₂_iff_zip.mpr ⟨matched.length_eq, fun {symbol symbol'} together => ?_⟩
  have paired := Module.paired_of_mem_zip hidden built built' together
  refine ⟨paired.same, ?_⟩
  have one : first.citations symbol = _ := Module.bare_toSymbol built symbol.id
  have other : second.citations symbol' = _ := Module.bare_toSymbol built' symbol'.id
  -- The walks are the same but for the table.
  have walks : module.resolvers (.withPrivate tests) second.symbols =
      (module.resolvers (.publicOnly tests) first.symbols).map
        fun resolver => resolver.withTable second.symbols := by
    unfold Module.resolvers
    rw [List.map_map]
    rfl
  rw [one, other, walks, List.flatMap_map]
  refine flatMap_of_forall₂ (List.forall₂_same.mpr fun _ _ => rfl :
    List.Forall₂ (fun resolver other => resolver = other) _ _) fun resolver walked other same => ?_
  obtain ⟨held, -, table⟩ := Module.file_of_mem_resolvers walked
  cases same
  have agreed := Resolver.references_agree paired (spelled _ held)
  change (∀ reference ∈ Resolver.references { resolver with symbols := first.symbols }, _) → _
    at agreed
  rw [← table] at agreed
  exact agreed (addressed resolver walked)

/-- Run a check on both indexes of a module. -/
def Module.checkBoth (module : Module) (check : Index → Index → Bool) : Bool :=
  match (module.index (.publicOnly true)).run, (module.index (.withPrivate true)).run with
  | .ok (.ok first), .ok (.ok second) => check first second
  | _, _ => false

/-- A check that passes has seen both indexes. -/
theorem Module.exists_of_checkBoth {module : Module} {check : Index → Index → Bool}
    (passes : module.checkBoth check = true) :
    ∃ first second, (module.index (.publicOnly true)).run = .ok (.ok first) ∧
      (module.index (.withPrivate true)).run = .ok (.ok second) ∧ check first second = true := by
  unfold checkBoth at passes
  split at passes
  · rename_i first second built built'
    exact ⟨first, second, built, built', passes⟩
  · cases passes

/-- Some public symbol of a kind has more references in one index than in the other. -/
def Index.differsOn (kind : SymbolKind) (first second : Index) : Bool :=
  (first.symbols.toList.zip (second.symbols.toList.filter Symbol.isPublic)).any fun pair =>
    pair.1.kind == kind && (first.citations pair.1).length != (second.citations pair.2).length

/-- No file has functions. -/
def Module.functionless (module : Module) : Bool :=
  module.sourceFiles.all fun file => (file.functions.values ++ file.methods).isEmpty

/-- Without functions there are no parameters. -/
theorem Module.paramsPrivate_of_functionless {module : Module}
    (bare : module.functionless = true) : module.ParamsPrivate := by
  intro file held decl declared
  have none := List.isEmpty_iff.mp (List.all_eq_true.mp bare file held)
  rw [none] at declared
  cases declared

/-- A module from source text is spelled. -/
theorem Module.spelled_of_ofSources {path : String} {sources : List (String × String)}
    {module : Module} (loaded : Module.ofSources path sources = .ok module) : module.Spelled := by
  intro file held mention member
  obtain ⟨stream, read⟩ := (scanned_of_ofSources loaded file held).readFrom
  exact read.text_of_mem_mentions member

/-- An import and a private variable whose qualified names end alike, and a use of the pair. -/
def contestedSources : List (String × String) :=
  [("a/a.go", "package a\n\nimport n \"x/q.n\"\n"), ("b/b.go", "package b\n\nvar B = q.n\n"),
    ("q/q.go", "package q\n\nvar n = 1\n")]

/-- Two private variables whose qualified names end alike, and a use of the pair. -/
def misnamedSources : List (String × String) :=
  [("a/a.go", "package a\n\ntype N int\n\ntype q struct \x7b N \x7d\n"),
    ("b/b.go", "package b\n\nimport . \"m/a\"\n\nvar B = q.n\n"),
    ("c/q/q.go", "package q\n\nvar n = 1\n"), ("q/q.go", "package q\n\nvar n = 1\n")]

/-- The module with a field whose name is not that of its type, and with a text that does not spell
the use. -/
def misname (module : Module) : Module :=
  let rename (decl : TypeDecl) : TypeDecl :=
    match decl.shape with
    | .struct fields =>
      { decl with shape := .struct (fields.map fun field => { field with name := "n" }) }
    | _ => decl
  (module.updateFile "a/a.go" fun file => { file with types := file.types.mapValues rename })
    |>.updateFile "b/b.go" fun file =>
      { file with content := "package b\n\nimport . \"m/a\"\n\nvar B = q.N\n" }

/-- A private variable takes a reference from an import, and in a module that is not spelled even
from an exported type. -/
theorem full_index_has_fewer_references :
    (∃ module first second, Module.ofSources "m" contestedSources = .ok module ∧
      module.ParamsPrivate ∧ (module.index (.publicOnly true)).run = .ok (.ok first) ∧
      (module.index (.withPrivate true)).run = .ok (.ok second) ∧
      ∃ pair ∈ first.symbols.toList.zip (second.symbols.toList.filter Symbol.isPublic),
        pair.1.kind = .imported ∧ first.citations pair.1 ≠ second.citations pair.2) ∧
    ∃ module first second, (Module.ofSources "m" misnamedSources).map misname = .ok module ∧
      module.ParamsPrivate ∧ (module.index (.publicOnly true)).run = .ok (.ok first) ∧
      (module.index (.withPrivate true)).run = .ok (.ok second) ∧
      ∃ pair ∈ first.symbols.toList.zip (second.symbols.toList.filter Symbol.isPublic),
        pair.1.kind = .type ∧ first.citations pair.1 ≠ second.citations pair.2 := by
  have differs {loaded : Except Error Module} {kind : SymbolKind}
      (evaluated : checkOk loaded (fun module =>
        module.functionless && module.checkBoth (Index.differsOn kind)) = true) :
      ∃ module first second, loaded = .ok module ∧ module.ParamsPrivate ∧
        (module.index (.publicOnly true)).run = .ok (.ok first) ∧
        (module.index (.withPrivate true)).run = .ok (.ok second) ∧
        ∃ pair ∈ first.symbols.toList.zip (second.symbols.toList.filter Symbol.isPublic),
          pair.1.kind = kind ∧ first.citations pair.1 ≠ second.citations pair.2 := by
    obtain ⟨module, rfl, checked⟩ := exists_of_checkOk evaluated
    obtain ⟨bare, both⟩ := Bool.and_eq_true_iff.mp checked
    obtain ⟨first, second, built, built', found⟩ := Module.exists_of_checkBoth both
    obtain ⟨pair, listed, apart⟩ := List.any_eq_true.mp found
    simp only [Bool.and_eq_true, beq_iff_eq, bne_iff_ne, ne_eq] at apart
    exact ⟨module, first, second, rfl, Module.paramsPrivate_of_functionless bare, built, built',
      pair, listed, apart.1, fun same => apart.2 (congrArg List.length same)⟩
  exact ⟨differs (by decide +kernel), differs (by decide +kernel)⟩

/-- Both indexes of the contested module agree on its exported variable. -/
theorem public_index_agrees_contested :
    ∃ module first second, Module.ofSources "m" contestedSources = .ok module ∧
      module.ParamsPrivate ∧ module.Spelled ∧
      (module.index (.publicOnly true)).run = .ok (.ok first) ∧
      (module.index (.withPrivate true)).run = .ok (.ok second) ∧
      List.Forall₂ (fun symbol symbol' => symbol.unnumbered = symbol'.unnumbered ∧
          (symbol.isOuter = false → first.citations symbol = second.citations symbol') ∧
          (second.citations symbol').Sublist (first.citations symbol))
        first.symbols.toList (second.symbols.toList.filter Symbol.isPublic) := by
  have evaluated : checkOk (Module.ofSources "m" contestedSources) (fun module =>
      module.functionless && module.checkBoth fun _ _ => true) = true := by
    decide +kernel
  obtain ⟨module, loaded, checked⟩ := exists_of_checkOk evaluated
  obtain ⟨bare, both⟩ := Bool.and_eq_true_iff.mp checked
  obtain ⟨first, second, built, built', -⟩ := Module.exists_of_checkBoth both
  have hidden := Module.paramsPrivate_of_functionless bare
  have spelled := Module.spelled_of_ofSources loaded
  exact ⟨module, first, second, loaded, hidden, spelled, built, built',
    public_index_agrees hidden spelled built built'⟩

end GoRefactor
