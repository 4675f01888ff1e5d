import GoRefactor.Proofs.NameMap
import GoRefactor.Proofs.Symbol.Lookups
import GoRefactor.Transform.Extract
import Mathlib.Data.List.Induction

/-!
# Which structs make a pattern

Structs are filed one after the other under the key of their method sets, so the patterns are the
classes of structs that share a key, in the order of the keys. A key is the names and signatures
written in a row. Names and signatures can be read back from it where each signature opens a
parenthesis, as it does in a well-formed method; a method without a parameter list can borrow its
name from the next one's signature.
-/

namespace GoRefactor

section Discovery

variable (index : Index) (excludes : Excludes)

/-- The struct is left out by its package or its name. -/
def Excludes.leavesOut (struct : Symbol) : Bool :=
  matchesAny excludes.packages struct.package || matchesAny excludes.types struct.name

/-- A method that counts for a struct: it belongs to a type of that name and package, and its own
name is not left out. -/
def Excludes.CountsFor (struct method : Symbol) : Prop :=
  method.parentType = some struct.name ∧ method.kind = .method ∧ method.package = struct.package ∧
    matchesAny excludes.methods method.name = false

/-- What patterns tell of a method. -/
def Symbol.shape (method : Symbol) : MethodShape :=
  ⟨method.name, normalizeText (method.typeText.getD "")⟩

/-- What patterns tell of a struct. -/
def Symbol.implementer (struct : Symbol) : Implementer :=
  ⟨struct.name, struct.package, struct.file⟩

/-- Key of the method set of a struct. -/
def structKey (struct : Symbol) : String := methodKey (methodSet index excludes struct)

/-- Those of some structs that can go into a pattern: they are not left out and have methods. -/
def surviving (structs : List Symbol) : List Symbol :=
  structs.filter fun struct =>
    !excludes.leavesOut struct && !(methodSet index excludes struct).isEmpty

/-- Those of some structs that go into the pattern with a key. -/
def sharing (structs : List Symbol) (key : String) : List Symbol :=
  (surviving index excludes structs).filter fun struct => structKey index excludes struct == key

/-- The pattern of some structs under a key, if one of them has the key. The first of them gives
the methods. -/
def patternOf? (structs : List Symbol) (key : String) : Option MethodPattern :=
  (sharing index excludes structs key).head?.map fun first =>
    ⟨methodSet index excludes first,
      (sharing index excludes structs key).map Symbol.implementer⟩

/-! ## Method sets -/

variable {index excludes}

/-- Methods are ordered by name and signature: the order is total. -/
theorem MethodShape.le_total (left right : MethodShape) :
    left.le right = true ∨ right.le left = true := by
  unfold MethodShape.le
  by_cases before : left.name < right.name
  · simp [before]
  · by_cases behind : right.name < left.name
    · simp [behind]
    · have same : left.name = right.name :=
        String.le_antisymm (String.not_lt.mp behind) (String.not_lt.mp before)
      have either := String.le_total left.signature right.signature
      simpa [same, String.lt_irrefl] using either

/-- The order of methods is transitive. -/
theorem MethodShape.le_trans (left middle right : MethodShape) (low : left.le middle = true)
    (high : middle.le right = true) : left.le right = true := by
  simp only [le, Bool.or_eq_true, Bool.and_eq_true, decide_eq_true_eq, beq_iff_eq] at low high ⊢
  rcases low with before | ⟨same, below⟩
  · rcases high with before' | ⟨same', -⟩
    · exact Or.inl (String.lt_trans before before')
    · exact Or.inl (same' ▸ before)
  · rcases high with before' | ⟨same', below'⟩
    · exact Or.inl (same ▸ before')
    · exact Or.inr ⟨same.trans same', String.le_trans below below'⟩

/-- The order of methods tells them apart. -/
theorem MethodShape.le_antisymm (left right : MethodShape) (low : left.le right = true)
    (high : right.le left = true) : left = right := by
  simp only [le, Bool.or_eq_true, Bool.and_eq_true, decide_eq_true_eq, beq_iff_eq] at low high
  rcases low with before | ⟨same, below⟩
  · rcases high with behind | ⟨same', -⟩
    · exact absurd behind (String.lt_asymm before)
    · exact absurd (same' ▸ before) (String.lt_irrefl _)
  · have above : right.signature ≤ left.signature := by
      rcases high with behind | ⟨-, above⟩
      · exact absurd (same ▸ behind) (String.lt_irrefl _)
      · exact above
    have equal : left.signature = right.signature := String.le_antisymm below above
    cases left
    cases right
    simp_all

/-- The method set of a struct tells of the methods that count for it. -/
theorem mem_methodSet_iff (filed : index.symbols = .ofList index.symbols.toList) {struct : Symbol}
    {shape : MethodShape} :
    shape ∈ methodSet index excludes struct ↔
      ∃ method ∈ index.symbols.toList, excludes.CountsFor struct method ∧ method.shape = shape := by
  unfold methodSet
  rw [mem_dropRepeats, mem_sortBy, SymbolTable.membersOf_eq_filter filed]
  simp only [List.mem_map, List.mem_filter, Bool.and_eq_true, beq_iff_eq, Bool.not_eq_true',
    Excludes.CountsFor]
  constructor
  · rintro ⟨method, ⟨⟨listed, owner⟩, ⟨kind, package⟩, kept⟩, rfl⟩
    exact ⟨method, listed, ⟨owner, kind, package, kept⟩, rfl⟩
  · rintro ⟨method, listed, ⟨owner, kind, package, kept⟩, rfl⟩
    exact ⟨method, ⟨⟨listed, owner⟩, ⟨kind, package⟩, kept⟩, rfl⟩

/-- Method sets are in strict order. -/
theorem pairwise_methodSet (struct : Symbol) :
    (methodSet index excludes struct).Pairwise fun left right =>
      left.le right = true ∧ left ≠ right :=
  pairwise_dropRepeats MethodShape.le_antisymm
    (pairwise_sortBy MethodShape.le_total MethodShape.le_trans _)

/-- Method sets with the same members are equal, also those of two indexes. -/
theorem methodSet_eq_iff {index' : Index} {struct other : Symbol} :
    methodSet index excludes struct = methodSet index' excludes other ↔
      ∀ shape, shape ∈ methodSet index excludes struct ↔
        shape ∈ methodSet index' excludes other := by
  constructor
  · intro same shape
    rw [same]
  · intro same
    have distinct (index : Index) (struct : Symbol) : (methodSet index excludes struct).Nodup :=
      (pairwise_methodSet struct).imp And.right
    refine ((List.perm_ext_iff_of_nodup (distinct index struct)
      (distinct index' other)).mpr same).eq_of_pairwise ?_ (pairwise_methodSet struct)
        (pairwise_methodSet other)
    intro left right _ _ low high
    exact MethodShape.le_antisymm left right low.1 high.1

/-- The method set of a struct depends on its name and package only. -/
theorem structKey_of_implementer {struct other : Symbol}
    (same : struct.implementer = other.implementer) :
    structKey index excludes struct = structKey index excludes other := by
  injection same with name package
  unfold structKey methodSet
  rw [name, package]

/-! ## Filing structs -/

/-- One more struct joins those with its key. -/
theorem sharing_concat (structs : List Symbol) (struct : Symbol) (key : String) :
    sharing index excludes (structs ++ [struct]) key =
      if excludes.leavesOut struct = false ∧ methodSet index excludes struct ≠ [] ∧
          structKey index excludes struct = key then
        sharing index excludes structs key ++ [struct]
      else sharing index excludes structs key := by
  unfold sharing surviving
  rw [List.filter_append, List.filter_append, List.filter_singleton]
  by_cases out : excludes.leavesOut struct = true
  · simp [out]
  · by_cases bare : methodSet index excludes struct = []
    · simp [bare]
    · have held : (methodSet index excludes struct).isEmpty = false := by simpa using bare
      by_cases here : structKey index excludes struct = key
      · simp [out, bare, held, here]
      · simp [out, bare, held, here]

/-- Filing a struct adds it to the pattern of its method set and leaves the others. -/
theorem get?_addImplementer (patterns : NameMap MethodPattern) (struct : Symbol) (key : String) :
    (addImplementer index excludes patterns struct).get? key =
      if excludes.leavesOut struct = false ∧ methodSet index excludes struct ≠ [] ∧
          structKey index excludes struct = key then
        let known := (patterns.get? key).getD ⟨methodSet index excludes struct, []⟩
        some { known with implementers := known.implementers ++ [struct.implementer] }
      else patterns.get? key := by
  unfold addImplementer
  by_cases out : excludes.leavesOut struct = true
  · have left : (matchesAny excludes.packages struct.package ||
        matchesAny excludes.types struct.name) = true := out
    rw [if_pos left, if_neg (fun given => by rw [out] at given; cases given.1)]
  · have kept : ¬(matchesAny excludes.packages struct.package ||
        matchesAny excludes.types struct.name) = true := out
    rw [if_neg kept]
    cases methods : methodSet index excludes struct with
    | nil => rw [if_neg (fun given => given.2.1 rfl)]
    | cons first rest =>
      have filed : methodKey (first :: rest) = structKey index excludes struct := by
        rw [structKey, methods]
      simp only [filed, NameMap.get?_insert]
      by_cases here : structKey index excludes struct = key
      · subst here
        rw [if_pos rfl, if_pos ⟨Bool.eq_false_iff.mpr out, List.cons_ne_nil _ _, rfl⟩]
        rfl
      · rw [if_neg (fun same => here same.symm), if_neg (fun given => here given.2.2)]

/-- After structs are filed, the pattern of those with a key stands under the key. -/
theorem get?_foldl_addImplementer (structs : List Symbol) (key : String) :
    (structs.foldl (addImplementer index excludes) ∅).get? key =
      patternOf? index excludes structs key := by
  induction structs using List.reverseRecOn with
  | nil => rfl
  | append_singleton structs struct ih =>
    rw [List.foldl_append, List.foldl_cons, List.foldl_nil, get?_addImplementer, ih]
    unfold patternOf?
    rw [sharing_concat]
    by_cases joins : excludes.leavesOut struct = false ∧ methodSet index excludes struct ≠ [] ∧
        structKey index excludes struct = key
    · rw [if_pos joins, if_pos joins]
      cases sharing index excludes structs key with
      | nil => rfl
      | cons first rest => simp
    · rw [if_neg joins, if_neg joins]

/-- A map is made of what is found under its keys. -/
theorem NameMap.values_eq_filterMap {α : Type} (map : NameMap α) :
    map.values = map.keys.filterMap map.get? := by
  have found : ∀ entry ∈ map.entries, map.get? entry.1 = some entry.2 := fun entry member =>
    NameMap.get?_eq_some_iff.mpr member
  unfold NameMap.values NameMap.keys
  rw [List.filterMap_map, ← List.filterMap_eq_map]
  exact (List.filterMap_congr found).symm

/-! ## Keys that can be read back -/

/-- How many brackets a text opens beyond those that it closes. -/
def nesting (cs : List Char) : Int :=
  (cs.countP fun c => c == '(' || c == '[' || c == '\x7b' : Nat) -
    (cs.countP fun c => c == ')' || c == ']' || c == '\x7d' : Nat)

/-- A text whose brackets match in number and whose semicolons stand in brackets. -/
structure Enclosed (cs : List Char) : Prop where
  /-- As many brackets are closed as are opened. -/
  closed : nesting cs = 0
  /-- In front of a semicolon some bracket is open. -/
  within : ∀ front back, cs = front ++ ';' :: back → 0 < nesting front

/-- A method as source text has it: a name, then parameters in parentheses. -/
structure MethodShape.WellFormed (shape : MethodShape) : Prop where
  /-- The name has name characters only. -/
  named : ∀ c ∈ shape.name.toList, isNameChar c = true
  /-- The signature opens a parenthesis. -/
  opens : ∃ rest, shape.signature.toList = '(' :: rest
  /-- Brackets match, and semicolons stand in brackets. -/
  enclosed : Enclosed shape.signature.toList

/-- Brackets of texts in a row. -/
theorem nesting_append (front back : List Char) :
    nesting (front ++ back) = nesting front + nesting back := by
  unfold nesting
  rw [List.countP_append, List.countP_append]
  omega

/-- A text of name characters alone has no brackets, so its nesting is zero. -/
theorem nesting_eq_zero {cs : List Char} (named : ∀ c ∈ cs, isNameChar c = true) :
    nesting cs = 0 := by
  have none (test : Char → Bool) (foreign : ∀ c, test c = true → isNameChar c = false) :
      cs.countP test = 0 := by
    rw [List.countP_eq_zero]
    intro c member passes
    have proper := named c member
    rw [foreign c passes] at proper
    cases proper
  unfold nesting
  rw [none _ ?_, none _ ?_]
  · rfl
  · intro c closing
    simp only [Bool.or_eq_true, beq_iff_eq] at closing
    rcases closing with (rfl | rfl) | rfl <;> decide
  · intro c opening
    simp only [Bool.or_eq_true, beq_iff_eq] at opening
    rcases opening with (rfl | rfl) | rfl <;> decide

/-- Name and signature of a well-formed method, in a row, are enclosed. -/
theorem MethodShape.WellFormed.enclosed_text {shape : MethodShape} (formed : shape.WellFormed) :
    Enclosed (shape.name ++ shape.signature).toList := by
  have bare := nesting_eq_zero formed.named
  rw [String.toList_append]
  constructor
  · rw [nesting_append, bare, formed.enclosed.closed]
    rfl
  · intro front back split
    rcases List.append_eq_append_iff.mp split with ⟨more, rfl, rest⟩ | ⟨more, left, rest⟩
    · rw [nesting_append, bare, Int.zero_add]
      exact formed.enclosed.within more back rest
    · -- The semicolon would stand in the name.
      cases more with
      | nil =>
        obtain ⟨after, opening⟩ := formed.opens
        rw [opening] at rest
        injection rest with parenthesis
        exact absurd parenthesis (by decide)
      | cons c more =>
        injection rest with semicolon
        have proper := formed.named c (left ▸ List.mem_append_right _ List.mem_cons_self)
        rw [← semicolon] at proper
        exact absurd proper (by decide)

/-- Enclosed texts that are followed by a semicolon each are told apart by what they begin. -/
theorem Enclosed.eq_of_append {first second rest rest' : List Char} (left : Enclosed first)
    (right : Enclosed second) (same : first ++ ';' :: rest = second ++ ';' :: rest') :
    first = second ∧ rest = rest' := by
  rcases List.append_eq_append_iff.mp same with ⟨more, longer, tail⟩ | ⟨more, longer, tail⟩
  · cases more with
    | nil =>
      injection tail with _ tails
      exact ⟨by simpa using longer.symm, tails⟩
    | cons c more =>
      injection tail with semicolon
      have nested := right.within first more (semicolon ▸ longer)
      exact absurd left.closed (by omega)
  · cases more with
    | nil =>
      injection tail with _ tails
      exact ⟨by simpa using longer, tails.symm⟩
    | cons c more =>
      injection tail with semicolon
      have nested := left.within second more (semicolon ▸ longer)
      exact absurd right.closed (by omega)

/-- Enclosed texts that are joined by semicolons can be read back. -/
theorem eq_of_intercalate_eq : ∀ {texts others : List (List Char)}, texts ≠ [] → others ≠ [] →
    (∀ text ∈ texts, Enclosed text) → (∀ text ∈ others, Enclosed text) →
    [';'].intercalate texts = [';'].intercalate others → texts = others
  | [], _, filled, _, _, _, _ => absurd rfl filled
  | _, [], _, filled, _, _, _ => absurd rfl filled
  | [text], [other], _, _, _, _, same => by
    rw [List.intercalate_singleton, List.intercalate_singleton] at same
    rw [same]
  | [text], other :: next :: rest, _, _, left, right, same => by
    rw [List.intercalate_singleton, List.intercalate_cons_cons, List.append_assoc] at same
    have inside := (left text List.mem_cons_self).within other _ same
    exact absurd (right other List.mem_cons_self).closed (by omega)
  | text :: next :: rest, [other], _, _, left, right, same => by
    rw [List.intercalate_singleton, List.intercalate_cons_cons, List.append_assoc] at same
    have inside := (right other List.mem_cons_self).within text _ same.symm
    exact absurd (left text List.mem_cons_self).closed (by omega)
  | text :: next :: rest, other :: next' :: rest', _, _, left, right, same => by
    rw [List.intercalate_cons_cons, List.intercalate_cons_cons, List.append_assoc,
      List.append_assoc] at same
    obtain ⟨first, later⟩ := (left text List.mem_cons_self).eq_of_append
      (right other List.mem_cons_self) same
    rw [first, eq_of_intercalate_eq (List.cons_ne_nil _ _) (List.cons_ne_nil _ _)
      (fun text member => left text (List.mem_cons_of_mem _ member))
      (fun text member => right text (List.mem_cons_of_mem _ member)) later]

/-- A well-formed method is told by its name and signature in a row. -/
theorem MethodShape.WellFormed.eq_of_text {shape other : MethodShape} (left : shape.WellFormed)
    (right : other.WellFormed)
    (same : shape.name ++ shape.signature = other.name ++ other.signature) : shape = other := by
  obtain ⟨rest, opens⟩ := left.opens
  obtain ⟨rest', opens'⟩ := right.opens
  have texts := congrArg String.toList same
  rw [String.toList_append, String.toList_append, opens, opens'] at texts
  have front {name back : List Char} (named : ∀ c ∈ name, isNameChar c = true) :
      (name ++ '(' :: back).takeWhile isNameChar = name := by
    rw [List.takeWhile_append_of_pos named, List.takeWhile_cons_of_neg (by decide),
      List.append_nil]
  have names : shape.name.toList = other.name.toList := by
    rw [← front left.named, texts, front right.named]
  rw [names] at texts
  have signatures := List.append_cancel_left texts
  rw [← opens, ← opens'] at signatures
  have name : shape.name = other.name := String.toList_inj.mp names
  have signature : shape.signature = other.signature := String.toList_inj.mp signatures
  cases shape
  cases other
  simp_all

/-- Methods are told by their texts where each of them is. -/
theorem eq_of_texts_eq : ∀ {methods others : List MethodShape},
    (∀ shape ∈ methods, shape.WellFormed) → (∀ shape ∈ others, shape.WellFormed) →
    (methods.map fun method => method.name ++ method.signature) =
      (others.map fun method => method.name ++ method.signature) → methods = others
  | [], [], _, _, _ => rfl
  | [], _ :: _, _, _, same => nomatch same
  | _ :: _, [], _, _, same => nomatch same
  | shape :: rest, other :: rest', formed, formed', same => by
    obtain ⟨here, later⟩ := List.cons.inj same
    obtain ⟨first, others⟩ := List.forall_mem_cons.mp formed
    obtain ⟨first', others'⟩ := List.forall_mem_cons.mp formed'
    rw [first.eq_of_text first' here, eq_of_texts_eq others others' later]

/-- **The key of well-formed methods tells which they are.** -/
theorem eq_of_methodKey_eq {methods others : List MethodShape} (filled : methods ≠ [])
    (filled' : others ≠ []) (formed : ∀ shape ∈ methods, shape.WellFormed)
    (formed' : ∀ shape ∈ others, shape.WellFormed) (same : methodKey methods = methodKey others) :
    methods = others := by
  have keys := congrArg String.toList same
  unfold methodKey at keys
  rw [String.toList_intercalate, String.toList_intercalate] at keys
  have enclosed {shapes : List MethodShape} (formed : ∀ shape ∈ shapes, shape.WellFormed) :
      ∀ text ∈ (shapes.map fun method => method.name ++ method.signature).map String.toList,
        Enclosed text := by
    rw [List.map_map]
    intro text member
    obtain ⟨shape, held, rfl⟩ := List.mem_map.mp member
    exact (formed shape held).enclosed_text
  have texts := eq_of_intercalate_eq (by simpa using filled) (by simpa using filled')
    (enclosed formed) (enclosed formed') keys
  have distinct : Function.Injective String.toList := fun _ _ given => String.toList_inj.mp given
  exact eq_of_texts_eq formed formed' (distinct.list_map texts)

/-! ## What is discovered -/

variable (index excludes)

/-- The structs that can go into a pattern, in the order of their numbers. -/
def candidates : List Symbol :=
  surviving index excludes (index.symbols.toList.filter fun symbol => symbol.kind == .struct)

/-- Those of them that have the methods of a struct. -/
def alike (struct : Symbol) : List Symbol :=
  (candidates index excludes).filter fun other =>
    methodSet index excludes other == methodSet index excludes struct

/-- The pattern under a key. -/
def keyPattern? (key : String) : Option MethodPattern :=
  patternOf? index excludes (index.symbols.toList.filter fun symbol => symbol.kind == .struct) key

/-- A pattern is large enough to be returned. -/
def ExtractionOptions.keeps (options : ExtractionOptions) (pattern : MethodPattern) : Bool :=
  options.minTypes ≤ pattern.implementers.length && options.minMethods ≤ pattern.methods.length

variable {index excludes}

/-- A struct with a key goes into the pattern under the key. -/
theorem mem_sharing_iff {structs : List Symbol} {struct : Symbol} {key : String} :
    struct ∈ sharing index excludes structs key ↔
      struct ∈ surviving index excludes structs ∧ structKey index excludes struct = key := by
  rw [sharing, List.mem_filter, beq_iff_eq]

/-- There is a pattern under a key exactly where a struct has the key. -/
theorem isSome_keyPattern?_iff {key : String} :
    (keyPattern? index excludes key).isSome ↔
      ∃ struct ∈ candidates index excludes, structKey index excludes struct = key := by
  unfold keyPattern? patternOf? candidates
  rw [Option.isSome_map, List.isSome_head?]
  constructor
  · intro filled
    obtain ⟨struct, member⟩ := List.exists_mem_of_ne_nil _ (by simpa using filled)
    exact ⟨struct, mem_sharing_iff.mp member⟩
  · rintro ⟨struct, given⟩
    have member := mem_sharing_iff.mpr given
    simpa using List.ne_nil_of_mem member

/-- A pattern under a key has the methods that the key was made of and the structs with the key. -/
theorem keyPattern?_eq_some {key : String} {pattern : MethodPattern}
    (found : keyPattern? index excludes key = some pattern) :
    methodKey pattern.methods = key ∧
      pattern.implementers = ((candidates index excludes).filter fun struct =>
        structKey index excludes struct == key).map Symbol.implementer := by
  unfold keyPattern? patternOf? at found
  obtain ⟨first, leads, rfl⟩ := Option.map_eq_some_iff.mp found
  have shared := (mem_sharing_iff.mp (List.mem_of_mem_head? leads)).2
  exact ⟨shared, rfl⟩

/-- Patterns of different keys have no struct in common. -/
theorem eq_of_mem_keyPattern? {key key' : String} {pattern pattern' : MethodPattern}
    (found : keyPattern? index excludes key = some pattern)
    (found' : keyPattern? index excludes key' = some pattern') {struct : Implementer}
    (member : struct ∈ pattern.implementers) (member' : struct ∈ pattern'.implementers) :
    pattern = pattern' := by
  rw [(keyPattern?_eq_some found).2] at member
  rw [(keyPattern?_eq_some found').2] at member'
  obtain ⟨one, inside, rfl⟩ := List.mem_map.mp member
  obtain ⟨other, inside', same⟩ := List.mem_map.mp member'
  have keyed : structKey index excludes one = key := by simpa using (List.mem_filter.mp inside).2
  have keyed' : structKey index excludes other = key' := by
    simpa using (List.mem_filter.mp inside').2
  have equal : key = key' := by
    rw [← keyed, ← keyed']
    exact structKey_of_implementer same.symm
  subst equal
  exact Option.some.inj (found.symm.trans found')

/-- **A struct's pattern is that of its method set exactly if no struct with its key has another
one.** -/
theorem keyPattern?_eq_alike_iff {struct : Symbol} (listed : struct ∈ candidates index excludes) :
    keyPattern? index excludes (structKey index excludes struct) =
        some ⟨methodSet index excludes struct,
          (alike index excludes struct).map Symbol.implementer⟩ ↔
      ∀ other ∈ candidates index excludes,
        structKey index excludes other = structKey index excludes struct →
          methodSet index excludes other = methodSet index excludes struct := by
  constructor
  · intro exact other listed' same
    have among := (keyPattern?_eq_some exact).2
    have member : other.implementer ∈ (alike index excludes struct).map Symbol.implementer := by
      rw [show (alike index excludes struct).map Symbol.implementer = _ from among]
      exact List.mem_map_of_mem (List.mem_filter.mpr ⟨listed', by simpa using same⟩)
    obtain ⟨third, inside, equal⟩ := List.mem_map.mp member
    have methods : methodSet index excludes third = methodSet index excludes struct := by
      simpa using (List.mem_filter.mp inside).2
    rw [← methods]
    injection equal with name package
    unfold methodSet
    rw [name, package]
  · intro told
    have same : sharing index excludes
        (index.symbols.toList.filter fun symbol => symbol.kind == .struct)
        (structKey index excludes struct) = alike index excludes struct := by
      refine List.filter_congr fun other member => ?_
      rw [Bool.eq_iff_iff, beq_iff_eq, beq_iff_eq]
      constructor
      · exact told other member
      · intro equal
        rw [structKey, structKey, equal]
    unfold keyPattern? patternOf?
    rw [same]
    have member : struct ∈ alike index excludes struct :=
      List.mem_filter.mpr ⟨listed, beq_self_eq_true _⟩
    cases leads : (alike index excludes struct).head? with
    | none =>
      rw [List.head?_eq_none_iff.mp leads] at member
      cases member
    | some first =>
      have methods : methodSet index excludes first = methodSet index excludes struct := by
        simpa using (List.mem_filter.mp (List.mem_of_mem_head? leads)).2
      rw [Option.map_some, methods]

variable (index excludes)

/-- What a discovery returns: the patterns under all keys of candidates, in the order of the keys,
as far as they are large enough. -/
structure Clusters (options : ExtractionOptions) (patterns : List MethodPattern) : Prop where
  /-- Candidates are structs that survive the excludes and have methods, by number. -/
  listed : ∀ struct, struct ∈ candidates index excludes ↔
    struct ∈ index.symbols.toList ∧ struct.kind = .struct ∧
      excludes.leavesOut struct = false ∧ methodSet index excludes struct ≠ []
  /-- Candidates stand in the order of their numbers. -/
  numbered : ((candidates index excludes).map (·.id)).Pairwise (· < ·)
  /-- A method set tells of the methods that count for the struct. -/
  counted : ∀ struct shape, shape ∈ methodSet index excludes struct ↔
    ∃ method ∈ index.symbols.toList, excludes.CountsFor struct method ∧ method.shape = shape
  /-- It is sorted, and each method is in it once. -/
  sorted : ∀ struct, (methodSet index excludes struct).Pairwise fun left right =>
    left.le right = true ∧ left ≠ right
  /-- Patterns are those of the keys, if they are large enough. -/
  returned : ∀ pattern, pattern ∈ patterns ↔
    (∃ struct ∈ candidates index excludes,
      keyPattern? index excludes (structKey index excludes struct) = some pattern) ∧
    options.minTypes ≤ pattern.implementers.length ∧ options.minMethods ≤ pattern.methods.length
  /-- Patterns stand in the order of their keys. -/
  ordered : (patterns.map MethodPattern.key).Pairwise (· < ·)
  /-- No struct is in two patterns. -/
  once : ∀ pattern ∈ patterns, ∀ other ∈ patterns, ∀ struct ∈ pattern.implementers,
    struct ∈ other.implementers → pattern = other
  /-- Structs with the methods of a struct are in its pattern, by number. -/
  together : ∀ struct ∈ candidates index excludes, ∃ pattern,
    keyPattern? index excludes (structKey index excludes struct) = some pattern ∧
      ((alike index excludes struct).map Symbol.implementer).Sublist pattern.implementers
  /-- They are all of it, and their methods are the pattern's, exactly if no other struct shares the
  key with other methods. -/
  exactly : ∀ struct ∈ candidates index excludes,
    (keyPattern? index excludes (structKey index excludes struct) =
        some ⟨methodSet index excludes struct,
          (alike index excludes struct).map Symbol.implementer⟩ ↔
      ∀ other ∈ candidates index excludes,
        structKey index excludes other = structKey index excludes struct →
          methodSet index excludes other = methodSet index excludes struct)
  /-- Structs whose methods are well-formed share a key with the same methods only. -/
  wellFormed : ∀ struct ∈ candidates index excludes, ∀ other ∈ candidates index excludes,
    (∀ shape ∈ methodSet index excludes struct, shape.WellFormed) →
    (∀ shape ∈ methodSet index excludes other, shape.WellFormed) →
    structKey index excludes other = structKey index excludes struct →
      methodSet index excludes other = methodSet index excludes struct

variable {index excludes}

/-- The members of the list of candidates. -/
theorem mem_candidates_iff {struct : Symbol} :
    struct ∈ candidates index excludes ↔
      struct ∈ index.symbols.toList ∧ struct.kind = .struct ∧
        excludes.leavesOut struct = false ∧ methodSet index excludes struct ≠ [] := by
  unfold candidates surviving
  simp only [List.mem_filter, beq_iff_eq, Bool.and_eq_true, Bool.not_eq_true',
    List.isEmpty_eq_false_iff, and_assoc]

/-- What is discovered, as a list: the patterns under the keys in order. -/
theorem discover_eq (filed : index.symbols = .ofList index.symbols.toList)
    {options : ExtractionOptions} (read : options.excludes = .ok excludes) :
    ∃ keys : List String, keys.Pairwise (· < ·) ∧
      (∀ key, key ∈ keys ↔ (keyPattern? index excludes key).isSome) ∧
      discover index options =
        .ok ((keys.filterMap (keyPattern? index excludes)).filter options.keeps) := by
  let structs := index.symbols.toList.filter fun symbol => symbol.kind == .struct
  let patterns := structs.foldl (addImplementer index excludes) ∅
  have found (key : String) : patterns.get? key = keyPattern? index excludes key :=
    get?_foldl_addImplementer structs key
  refine ⟨patterns.keys, List.pairwise_map.mpr patterns.ordered, fun key => ?_, ?_⟩
  · rw [← found, Option.isSome_iff_exists]
    simp only [NameMap.get?_eq_some_iff, NameMap.keys, List.mem_map, Prod.exists, exists_and_right,
      exists_eq_right]
  · have values : patterns.values = patterns.keys.filterMap (keyPattern? index excludes) := by
      rw [NameMap.values_eq_filterMap]
      exact List.filterMap_congr fun key _ => found key
    rw [← values]
    unfold discover
    rw [read, bind_ok, SymbolTable.ofKind_eq_filter filed]
    rfl

/-- The patterns under keys in order are clusters, as far as they are large enough. -/
theorem clusters_of_keys (filed : index.symbols = .ofList index.symbols.toList)
    (numbered : index.symbols.toList.map (·.id) = List.range index.symbols.size)
    {options : ExtractionOptions} {keys : List String} (increasing : keys.Pairwise (· < ·))
    (told : ∀ key, key ∈ keys ↔ (keyPattern? index excludes key).isSome) :
    Clusters index excludes options
      ((keys.filterMap (keyPattern? index excludes)).filter options.keeps) := by
  have returned (pattern : MethodPattern) :
      pattern ∈ (keys.filterMap (keyPattern? index excludes)).filter options.keeps ↔
        (∃ struct ∈ candidates index excludes,
          keyPattern? index excludes (structKey index excludes struct) = some pattern) ∧
        options.minTypes ≤ pattern.implementers.length ∧
          options.minMethods ≤ pattern.methods.length := by
    rw [List.mem_filter, List.mem_filterMap, ExtractionOptions.keeps, Bool.and_eq_true,
      decide_eq_true_eq, decide_eq_true_eq]
    refine and_congr_left fun _ => ?_
    constructor
    · rintro ⟨key, -, found⟩
      obtain ⟨struct, listed, rfl⟩ := isSome_keyPattern?_iff.mp (Option.isSome_of_mem found)
      exact ⟨struct, listed, found⟩
    · rintro ⟨struct, -, found⟩
      exact ⟨_, (told _).mpr (Option.isSome_of_mem found), found⟩
  constructor
  case listed => exact fun struct => mem_candidates_iff
  case numbered =>
    unfold candidates surviving
    rw [List.filter_filter]
    exact SymbolTable.pairwise_ids numbered _
  case counted => exact fun struct shape => mem_methodSet_iff filed
  case sorted => exact pairwise_methodSet
  case returned => exact returned
  case ordered =>
    rw [List.pairwise_map]
    refine (List.pairwise_filterMap.mpr (increasing.imp ?_)).filter _
    intro low high less pattern found other found'
    unfold MethodPattern.key
    rw [(keyPattern?_eq_some found).1, (keyPattern?_eq_some found').1]
    exact less
  case once =>
    intro pattern held other held' struct member member'
    obtain ⟨⟨first, -, found⟩, -⟩ := (returned pattern).mp held
    obtain ⟨⟨second, -, found'⟩, -⟩ := (returned other).mp held'
    exact eq_of_mem_keyPattern? found found' member member'
  case together =>
    intro struct listed
    have there := isSome_keyPattern?_iff.mpr ⟨struct, listed, rfl⟩
    obtain ⟨pattern, found⟩ := Option.isSome_iff_exists.mp there
    refine ⟨pattern, found, ?_⟩
    rw [(keyPattern?_eq_some found).2]
    refine List.Sublist.map _ (List.monotone_filter_right _ fun other same => ?_)
    rw [beq_iff_eq] at same
    rw [beq_iff_eq, structKey, structKey, same]
  case exactly => exact fun struct listed => keyPattern?_eq_alike_iff listed
  case wellFormed =>
    intro struct listed other listed' formed formed' same
    have filled := (mem_candidates_iff.mp listed).2.2.2
    have filled' := (mem_candidates_iff.mp listed').2.2.2
    exact eq_of_methodKey_eq filled' filled formed' formed same

/-- **Discovery clusters structs by the keys of their method sets.** The clusters are those of equal
method sets exactly where no two sets share a key. -/
theorem discover_clusters {module : Module} {choice : IndexOptions} {index : Index}
    (built : (module.index choice).run = .ok (.ok index)) {options : ExtractionOptions}
    (valid : options.validate = .ok ()) :
    ∃ excludes patterns, options.excludes = .ok excludes ∧
      discover index options = .ok patterns ∧ Clusters index excludes options patterns := by
  have read : ∃ excludes, options.excludes = .ok excludes := by
    unfold ExtractionOptions.validate at valid
    by_cases few : options.minTypes < 1
    · rw [if_pos few] at valid
      cases valid
    · by_cases bare : options.minMethods < 1
      · rw [if_neg few, if_pos bare] at valid
        cases valid
      · rw [if_neg few, if_neg bare] at valid
        split at valid
        · cases valid
        · obtain ⟨excludes, read, -⟩ := bind_eq_ok.mp valid
          exact ⟨excludes, read⟩
  obtain ⟨excludes, read⟩ := read
  obtain ⟨-, drawn, -⟩ := Module.index_spec built
  obtain ⟨filed, numbered, -, -⟩ := Module.symbols_spec drawn
  obtain ⟨keys, increasing, told, found⟩ := discover_eq filed read
  exact ⟨excludes, _, read, found, clusters_of_keys filed numbered increasing told⟩

/-- Two structs whose methods have different names, written without parameters. -/
def borrowedName : List (String × String) :=
  [("a.go", "package p\n\ntype A struct\x7b\x7d\n\nfunc (a A) Fint \x7b\x7d\n\n" ++
    "type B struct\x7b\x7d\n\nfunc (b B) F int \x7b\x7d\n")]

/-- What the witness evaluates: the one pattern that is discovered, and the method sets of the
structs. -/
def borrows (index : Index) (patterns : List MethodPattern) : Bool :=
  patterns == [⟨[⟨"Fint", ""⟩], [⟨"A", "m", "a.go"⟩, ⟨"B", "m", "a.go"⟩]⟩] &&
    (candidates index ⟨[], [], []⟩).map (methodSet index ⟨[], [], []⟩) ==
      [[⟨"Fint", ""⟩], [⟨"F", "int"⟩]]

/-- Though two structs are asked for, a pattern is returned whose methods only one struct has. -/
theorem discover_clusters_borrowedName :
    ∃ module index options excludes patterns, Module.ofSources "m" borrowedName = .ok module ∧
      (module.index .full).run = .ok (.ok index) ∧ options.validate = .ok () ∧
      options.excludes = .ok excludes ∧ discover index options = .ok patterns ∧
      options.minTypes = 2 ∧ Clusters index excludes options patterns ∧
      patterns = [⟨[⟨"Fint", ""⟩], [⟨"A", "m", "a.go"⟩, ⟨"B", "m", "a.go"⟩]⟩] ∧
      (candidates index excludes).map (methodSet index excludes) =
        [[⟨"Fint", ""⟩], [⟨"F", "int"⟩]] := by
  have evaluated : checkOk (Module.ofSources "m" borrowedName) (fun module =>
      checkOk (module.index .full).run fun ending => checkOk ending fun index =>
        checkOk (discover index {}) (borrows index)) = true := by
    decide +kernel
  obtain ⟨module, loaded, checked⟩ := exists_of_checkOk evaluated
  obtain ⟨ending, built, ended⟩ := exists_of_checkOk checked
  obtain ⟨index, rfl, borrowed⟩ := exists_of_checkOk ended
  have valid : ExtractionOptions.validate {} = .ok () := rfl
  obtain ⟨excludes, patterns, read, found, clusters⟩ := discover_clusters built valid
  have bare : (⟨[], [], []⟩ : Excludes) = excludes := Except.ok.inj read
  obtain ⟨patterns', found', told⟩ := exists_of_checkOk borrowed
  have same : patterns' = patterns := Except.ok.inj (found'.symm.trans found)
  subst bare same
  obtain ⟨only, sets⟩ := Bool.and_eq_true_iff.mp told
  exact ⟨module, index, {}, _, patterns', loaded, built, valid, read, found, rfl, clusters,
    eq_of_beq only, eq_of_beq sets⟩

end Discovery

end GoRefactor
