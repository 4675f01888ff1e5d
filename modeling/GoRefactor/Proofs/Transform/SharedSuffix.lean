import GoRefactor.Proofs.Attempt
import GoRefactor.Transform.Naming
import Mathlib.Data.List.Infix

/-!
# What names share at their ends

A name is cut into words, none of them empty, that make the name when they are put together. What
names share at their ends is the longest list of words that the words of each of them end with. It
can be counted by looking words up from the end, and the count never looks a word up that is not
there. The name of an interface is what the structs' names share, if that can be declared and none
of them is just that. Otherwise it is the agent noun of the first method, and the agent noun may be
a struct's name.
-/

namespace GoRefactor

namespace Naming

/-! ## Words -/

/-- Words put together are the characters that they are cut from. -/
theorem flatten_wordsFrom (word : List Char) (before : Char) (cs : List Char) :
    (wordsFrom word before cs).flatten = word.reverse ++ cs := by
  induction cs generalizing word before with
  | nil => simp [wordsFrom]
  | cons c rest ih =>
    rw [wordsFrom]
    split
    · rw [List.flatten_cons, ih, List.reverse_singleton, List.singleton_append]
    · rw [ih, List.reverse_cons, List.append_assoc, List.singleton_append]

/-- **The words of a name, put together, are the name.** -/
theorem flatten_camelWords (name : List Char) : (camelWords name).flatten = name := by
  cases name with
  | nil => rfl
  | cons c rest => exact flatten_wordsFrom [c] c rest

/-- Where a word has begun, words are not empty. -/
theorem nil_not_mem_wordsFrom {word : List Char} (begun : word ≠ []) (before : Char)
    (cs : List Char) : [] ∉ wordsFrom word before cs := by
  have nonempty {word : List Char} (begun : word ≠ []) : [] ≠ word.reverse := fun empty =>
    begun (List.reverse_eq_nil_iff.mp empty.symm)
  induction cs generalizing word before with
  | nil =>
    rw [wordsFrom, List.mem_singleton]
    exact nonempty begun
  | cons c rest ih =>
    rw [wordsFrom]
    split
    · exact List.not_mem_cons_of_ne_of_not_mem (nonempty begun) (ih (List.cons_ne_nil c []) c)
    · exact ih (List.cons_ne_nil c word) c

/-- **No word of a name is empty.** -/
theorem nil_not_mem_camelWords (name : List Char) : [] ∉ camelWords name := by
  cases name with
  | nil => exact List.not_mem_nil
  | cons c rest => exact nil_not_mem_wordsFrom (List.cons_ne_nil c []) c rest

/-- The words of a name are made of its characters. -/
theorem mem_of_mem_camelWords {c : Char} {cs word : List Char} (member : word ∈ camelWords cs)
    (inside : c ∈ word) : c ∈ cs := by
  rw [← flatten_camelWords cs]
  exact List.mem_flatten_of_mem member inside

/-! ## What lists share -/

section Shared

variable {α : Type} [BEq α] [LawfulBEq α]

/-- What two lists have in common from the start, both start with. -/
theorem commonStart_starts (left right : List α) :
    commonStart left right <+: left ∧ commonStart left right <+: right := by
  fun_induction commonStart left right with
  | case1 left lefts right rights same ih =>
    rw [← eq_of_beq same]
    exact ⟨(List.prefix_cons_inj left).mpr ih.1, (List.prefix_cons_inj left).mpr ih.2⟩
  | case2 => exact ⟨⟨_, rfl⟩, ⟨_, rfl⟩⟩
  | case3 => exact ⟨⟨_, rfl⟩, ⟨_, rfl⟩⟩

/-- What both of two lists start with, is part of what they have in common. -/
theorem starts_commonStart {start left right : List α} (first : start <+: left)
    (second : start <+: right) : start <+: commonStart left right := by
  induction start generalizing left right with
  | nil => exact List.nil_prefix
  | cons entry rest ih =>
    obtain ⟨lefts, rfl⟩ := first
    obtain ⟨rights, rfl⟩ := second
    rw [List.cons_append, List.cons_append, commonStart, if_pos (beq_self_eq_true entry),
      List.prefix_cons_inj]
    exact ih (List.prefix_append rest lefts) (List.prefix_append rest rights)

/-- What lists have in common from the start, each of them starts with. -/
theorem commonStartAll_starts {lists : List (List α)} {list : List α} (member : list ∈ lists) :
    commonStartAll lists <+: list := by
  have folded (rest : List (List α)) (first : List α) :
      rest.foldl commonStart first <+: first ∧
        ∀ other ∈ rest, rest.foldl commonStart first <+: other := by
    induction rest generalizing first with
    | nil => exact ⟨List.prefix_rfl, fun _ none => nomatch none⟩
    | cons head rest ih =>
      obtain ⟨start, others⟩ := ih (commonStart first head)
      obtain ⟨left, right⟩ := commonStart_starts first head
      exact ⟨start.trans left, List.forall_mem_cons.mpr ⟨start.trans right, others⟩⟩
  cases lists with
  | nil => cases member
  | cons first rest =>
    rcases List.mem_cons.mp member with rfl | later
    · exact (folded rest list).1
    · exact (folded rest first).2 list later

/-- **What each of some lists starts with, is part of what they have in common.** -/
theorem starts_commonStartAll {lists : List (List α)} (some_list : lists ≠ []) {start : List α}
    (starts : ∀ list ∈ lists, start <+: list) : start <+: commonStartAll lists := by
  have folded (rest : List (List α)) (first : List α) (begins : start <+: first)
      (others : ∀ other ∈ rest, start <+: other) : start <+: rest.foldl commonStart first := by
    induction rest generalizing first with
    | nil => exact begins
    | cons head rest ih =>
      obtain ⟨here, later⟩ := List.forall_mem_cons.mp others
      exact ih (commonStart first head) (starts_commonStart begins here) later
  cases lists with
  | nil => exact absurd rfl some_list
  | cons first rest =>
    obtain ⟨here, later⟩ := List.forall_mem_cons.mp starts
    exact folded rest first here later

end Shared

/-! ## What names share -/

/-- The words that names share at their ends. -/
def sharedWords (names : List (List Char)) : List (List Char) :=
  (commonStartAll (names.map fun name => (camelWords name).reverse)).reverse

/-- The words of each name end with those that are shared. -/
theorem sharedWords_suffix {names : List (List Char)} {name : List Char} (member : name ∈ names) :
    sharedWords names <:+ camelWords name := by
  have shared := commonStartAll_starts
    (List.mem_map_of_mem (f := fun name => (camelWords name).reverse) member)
  rw [sharedWords, ← List.reverse_prefix, List.reverse_reverse]
  exact shared

/-- **Words that the words of each name end with, those end with that are shared.** -/
theorem suffix_sharedWords {names : List (List Char)} (some_name : names ≠ [])
    {words : List (List Char)} (ends : ∀ name ∈ names, words <:+ camelWords name) :
    words <:+ sharedWords names := by
  rw [sharedWords, ← List.reverse_prefix, List.reverse_reverse]
  refine starts_commonStartAll (fun none => some_name (List.map_eq_nil_iff.mp none)) ?_
  intro list member
  obtain ⟨name, held, rfl⟩ := List.mem_map.mp member
  exact List.reverse_prefix.mpr (ends name held)

/-- No name has fewer words than it shares with others. -/
theorem length_sharedWords_le {names : List (List Char)} {name : List Char}
    (member : name ∈ names) :
    (sharedWords names).length ≤ (camelWords name).length :=
  (sharedWords_suffix member).length_le

/-- The shared words, put together, are at the end of each name. -/
theorem flatten_sharedWords_suffix {names : List (List Char)} {name : List Char}
    (member : name ∈ names) : (sharedWords names).flatten <:+ name := by
  obtain ⟨front, parts⟩ := sharedWords_suffix member
  refine ⟨front.flatten, ?_⟩
  rw [← List.flatten_append, parts, flatten_camelWords]

/-- What names share is put together from the shared words, unless there is none. -/
theorem sharedSuffix_eq (names : List (List Char)) :
    sharedSuffix names =
      if sharedWords names = [] then none else some (capitalize (sharedWords names).flatten) := by
  rw [sharedSuffix, sharedWords]
  split
  · rename_i none
    rw [none]
    rfl
  · rename_i some_word
    rw [if_neg fun none => some_word (List.reverse_eq_nil_iff.mp none)]

/-- **Names share nothing exactly when they have no last word in common.** -/
theorem sharedWords_eq_nil_iff {names : List (List Char)} (some_name : names ≠ []) :
    sharedWords names = [] ↔ ¬∃ word, ∀ name ∈ names, (camelWords name).getLast? = some word := by
  constructor
  · rintro none ⟨word, last⟩
    have ends : [word] <:+ sharedWords names := suffix_sharedWords some_name fun name member =>
      List.singleton_suffix_iff_getLast?_eq_some.mpr (last name member)
    rw [none] at ends
    exact List.cons_ne_nil word [] (List.suffix_nil.mp ends)
  · intro noWord
    by_contra some_word
    obtain ⟨front, word, parts⟩ :=
      (List.eq_nil_or_concat (sharedWords names)).resolve_left some_word
    refine noWord ⟨word, fun name member => ?_⟩
    obtain ⟨more, ends⟩ := sharedWords_suffix member
    rw [← ends, parts, List.concat_eq_append, ← List.append_assoc, List.getLast?_concat]

/-! ## Counting by look-ups -/

/-- The word so many places in front of the last one, if there is one. -/
def fromEnd? (words : List (List Char)) (back : Nat) : Option (List Char) :=
  if back < words.length then words[words.length - 1 - back]? else none

/-- How many words at their ends some lists share, if they share `common` of them and at most
`remaining` more: further words of the first list are compared with those at the same places of all.
Nothing, when a word is looked up that is not there. -/
def countShared? (split : List (List (List Char))) (first : List (List Char)) (common : Nat) :
    Nat → Option Nat
  | 0 => some common
  | remaining + 1 => do
    let word ← fromEnd? first common
    let others ← split.mapM fun words => fromEnd? words common
    if others.all (· == word) then countShared? split first (common + 1) remaining
    else some common

/-- What names share at their ends, found by look-ups in the lists of their words. Nothing, when a
word is looked up that is not there. -/
def lookUpSuffix? (names : List (List Char)) : Option (Option (List Char)) :=
  match names.map camelWords with
  | [] => some none
  | first :: rest => do
    let shortest ← ((first :: rest).map List.length).min?
    let common ← countShared? (first :: rest) first 0 shortest
    if common = 0 then some none
    else if common ≤ first.length then
      some (some (capitalize (first.drop (first.length - common)).flatten))
    else none

/-- Looking up from the end is looking up in the reverse. -/
theorem fromEnd?_eq {words : List (List Char)} {back : Nat} (within : back < words.length) :
    fromEnd? words back = some (words.reverse.getD back []) := by
  have here : words.length - 1 - back < words.length := by omega
  rw [fromEnd?, if_pos within, List.getD_eq_getElem?_getD, List.getElem?_reverse within,
    List.getElem?_eq_getElem here, Option.getD_some]

/-- Where names share some words, the reverses of their words start with the same. -/
theorem take_reverse_eq {names : List (List Char)} {common : Nat}
    (shared : common ≤ (sharedWords names).length) {name : List Char} (member : name ∈ names) :
    (camelWords name).reverse.take common = (sharedWords names).reverse.take common := by
  obtain ⟨more, parts⟩ := List.reverse_prefix.mpr (sharedWords_suffix member)
  rw [← parts, List.take_append_of_le_length (by rw [List.length_reverse]; exact shared)]

/-- One word more from the end is the one that is looked up. -/
theorem take_succ_eq {words : List (List Char)} {back : Nat} (within : back < words.length) :
    words.reverse.take (back + 1) = words.reverse.take back ++ [words.reverse.getD back []] := by
  have inside : back < words.reverse.length := by
    rw [List.length_reverse]
    exact within
  rw [List.take_add_one, List.getD_eq_getElem?_getD, List.getElem?_eq_getElem inside]
  rfl

/-- **The count by look-ups finds how many words are shared.** -/
theorem countShared?_eq {names : List (List Char)} {first : List Char} (member : first ∈ names)
    {common remaining : Nat} (shared : common ≤ (sharedWords names).length)
    (atMost : (sharedWords names).length ≤ common + remaining)
    (enough : ∀ name ∈ names, common + remaining ≤ (camelWords name).length) :
    countShared? (names.map camelWords) (camelWords first) common remaining =
      some (sharedWords names).length := by
  induction remaining generalizing common with
  | zero => exact congrArg some (Nat.le_antisymm shared atMost)
  | succ remaining ih =>
    have within : ∀ name ∈ names, common < (camelWords name).length := fun name held =>
      Nat.lt_of_lt_of_le (by omega) (enough name held)
    have others : (names.map camelWords).mapM (fun words => fromEnd? words common) =
        some ((names.map camelWords).map fun words => words.reverse.getD common []) := by
      refine mapM_eq_some_map fun words held => ?_
      obtain ⟨name, inside, rfl⟩ := List.mem_map.mp held
      exact fromEnd?_eq (within name inside)
    rw [countShared?, fromEnd?_eq (within first member), others]
    simp only [Option.bind_eq_bind, Option.bind_some, List.map_map]
    split
    · rename_i same
      refine ih ?_ (by omega) (fun name held => Nat.le_trans (by omega) (enough name held))
      -- One word more stands at the same place of each list.
      have ends : ∀ name ∈ names,
          ((camelWords first).reverse.take (common + 1)).reverse <:+ camelWords name := by
        intro name held
        have entry : (camelWords name).reverse.getD common [] =
            (camelWords first).reverse.getD common [] :=
          eq_of_beq (List.all_eq_true.mp same _ (List.mem_map_of_mem held))
        have here : (camelWords first).reverse.take (common + 1) =
            (camelWords name).reverse.take (common + 1) := by
          rw [take_succ_eq (within first member), take_succ_eq (within name held), entry,
            take_reverse_eq shared member, take_reverse_eq shared held]
        rw [← List.reverse_prefix, List.reverse_reverse, here]
        exact List.take_prefix _ _
      have longer := (suffix_sharedWords (List.ne_nil_of_mem member) ends).length_le
      rw [List.length_reverse, List.length_take, List.length_reverse] at longer
      have one_more := within first member
      omega
    · rename_i other
      refine congrArg some (Nat.le_antisymm shared (Nat.not_lt.mp fun more => other ?_))
      -- A further word that is shared would stand at the same place of each list.
      have place : ∀ name ∈ names, (camelWords name).reverse.getD common [] =
          (sharedWords names).reverse.getD common [] := by
        intro name held
        obtain ⟨beyond, parts⟩ := List.reverse_prefix.mpr (sharedWords_suffix held)
        have inside : common < (sharedWords names).reverse.length := by
          rw [List.length_reverse]
          exact more
        rw [← parts, List.getD_eq_getElem?_getD, List.getElem?_append_left inside,
          ← List.getD_eq_getElem?_getD]
      refine List.all_eq_true.mpr fun word listed => ?_
      obtain ⟨name, held, rfl⟩ := List.mem_map.mp listed
      exact beq_iff_eq.mpr ((place name held).trans (place first member).symm)

/-- **No word is looked up that is not there, and the look-ups find what the names share.** -/
theorem lookUpSuffix?_eq (names : List (List Char)) :
    lookUpSuffix? names = some (sharedSuffix names) := by
  cases names with
  | nil => rfl
  | cons first rest =>
    have listed : (first :: rest).map camelWords = camelWords first :: rest.map camelWords := rfl
    obtain ⟨shortest, least⟩ : ∃ shortest,
        (((first :: rest).map camelWords).map List.length).min? = some shortest := ⟨_, rfl⟩
    obtain ⟨found, below⟩ := List.min?_eq_some_iff.mp least
    have enough : ∀ name ∈ first :: rest, 0 + shortest ≤ (camelWords name).length := by
      intro name held
      rw [Nat.zero_add]
      exact below _ (List.mem_map_of_mem (List.mem_map_of_mem held))
    have atMost : (sharedWords (first :: rest)).length ≤ 0 + shortest := by
      obtain ⟨words, held, rfl⟩ := List.mem_map.mp found
      obtain ⟨name, member, rfl⟩ := List.mem_map.mp held
      rw [Nat.zero_add]
      exact length_sharedWords_le member
    have counted := countShared?_eq List.mem_cons_self (Nat.zero_le _) atMost enough
    have ends : sharedWords (first :: rest) <:+ camelWords first :=
      sharedWords_suffix List.mem_cons_self
    have within := ends.length_le
    have last := List.suffix_iff_eq_drop.mp ends
    rw [lookUpSuffix?, listed]
    simp only
    rw [← listed, least]
    simp only [Option.bind_eq_bind, Option.bind_some]
    rw [counted, Option.bind_some, if_pos within, ← last, sharedSuffix_eq]
    simp only [List.length_eq_zero_iff]
    split <;> rfl

/-! ## The name of an interface -/

/-- The names of the structs. -/
def structNames (pattern : MethodPattern) : List String := pattern.implementers.map (·.name)

/-- What the structs' names share. -/
def sharedName? (pattern : MethodPattern) : Option String :=
  (sharedSuffix ((structNames pattern).map String.toList)).map String.ofList

/-- What the structs' names share, if it can be declared and no struct is called so. -/
def usableSuffix? (pattern : MethodPattern) : Option String :=
  (sharedName? pattern).filter fun suffix =>
    !(structNames pattern).contains suffix && (nameFlaw? suffix).isNone

/-- The name that does not come from the structs: the agent noun of the first method if it can be
declared, or the fallback. -/
def methodName (pattern : MethodPattern) : String :=
  ((pattern.methods.head?.map fun method => agentNoun method.name).filter fun name =>
    (nameFlaw? name).isNone).getD fallback

/-- What the structs' names share comes first. -/
theorem interfaceName_eq (pattern : MethodPattern) :
    interfaceName pattern = (usableSuffix? pattern).getD (methodName pattern) :=
  Option.getD_or

/-- What is used of the structs' names can be declared, and is none of them. -/
theorem usableSuffix?_eq_some_iff {pattern : MethodPattern} {name : String} :
    usableSuffix? pattern = some name ↔
      sharedName? pattern = some name ∧ name ∉ structNames pattern ∧ nameFlaw? name = none := by
  rw [usableSuffix?, Option.filter_eq_some_iff]
  simp

/-- The name that does not come from the structs can be declared. -/
theorem nameFlaw?_methodName (pattern : MethodPattern) : nameFlaw? (methodName pattern) = none := by
  rw [methodName]
  cases found : (pattern.methods.head?.map fun method => agentNoun method.name).filter fun name =>
      (nameFlaw? name).isNone with
  | none => decide +kernel
  | some name => exact Option.isNone_iff_eq_none.mp (Option.filter_eq_some_iff.mp found).2

/-- **The name of an interface can be declared.** -/
theorem nameFlaw?_interfaceName (pattern : MethodPattern) :
    nameFlaw? (interfaceName pattern) = none := by
  rw [interfaceName_eq]
  cases found : usableSuffix? pattern with
  | none => exact nameFlaw?_methodName pattern
  | some name => exact (usableSuffix?_eq_some_iff.mp found).2.2

/-- What the structs' names share is used, if it can be declared and is none of them. -/
theorem interfaceName_of_usable {pattern : MethodPattern} {name : String}
    (shared : sharedName? pattern = some name) (proper : nameFlaw? name = none)
    (free : name ∉ structNames pattern) : interfaceName pattern = name := by
  rw [interfaceName_eq, usableSuffix?_eq_some_iff.mpr ⟨shared, free, proper⟩, Option.getD_some]

/-- **Where the name of an interface is what its structs' names share, it is none of them, unless
what they share is the name of one of them and the other name is that name again.** -/
theorem interfaceName_apart_iff (pattern : MethodPattern) :
    (∀ name, sharedName? pattern = some name → interfaceName pattern = name →
      name ∉ structNames pattern) ↔
      ¬(sharedName? pattern = some (methodName pattern) ∧
        methodName pattern ∈ structNames pattern) := by
  -- What is the name of a struct is not used, so the other name is taken.
  have other {name : String} (held : name ∈ structNames pattern)
      (shared : sharedName? pattern = some name) :
      interfaceName pattern = methodName pattern := by
    rw [interfaceName_eq]
    cases usable : usableSuffix? pattern with
    | none => rfl
    | some used =>
      obtain ⟨same, free, -⟩ := usableSuffix?_eq_some_iff.mp usable
      rw [shared] at same
      exact absurd (Option.some.inj same ▸ held) free
  constructor
  · rintro apart ⟨shared, held⟩
    exact apart _ shared (other held shared) held
  · intro free name shared same held
    have again : methodName pattern = name := (other held shared).symm.trans same
    exact free ⟨again ▸ shared, again ▸ held⟩

/-- The words are the longest that the words of each name end with. -/
structure LongestEnd (names words : List (List Char)) : Prop where
  /-- The words of each name end with them. -/
  ends : ∀ name ∈ names, words <:+ camelWords name
  /-- What else the words of each name end with, is the end of them. -/
  longest : ∀ others, (∀ name ∈ names, others <:+ camelWords name) → others <:+ words
  /-- Put together, they are the end of each name. -/
  flat : ∀ name ∈ names, words.flatten <:+ name

/-- The shared words are the longest. -/
theorem longestEnd_sharedWords {names : List (List Char)} (some_name : names ≠ []) :
    LongestEnd names (sharedWords names) where
  ends _ member := sharedWords_suffix member
  longest _ ends := suffix_sharedWords some_name ends
  flat _ member := flatten_sharedWords_suffix member

/-- What is shared begins with a character. -/
theorem exists_flatten_sharedWords {names : List (List Char)} (some_name : names ≠ [])
    (some_word : sharedWords names ≠ []) : ∃ c rest, (sharedWords names).flatten = c :: rest := by
  obtain ⟨name, member⟩ := List.exists_mem_of_ne_nil names some_name
  refine List.exists_cons_of_ne_nil fun empty => ?_
  obtain ⟨word, held⟩ := List.exists_mem_of_ne_nil _ some_word
  have none : word = [] := List.flatten_eq_nil_iff.mp empty word held
  exact nil_not_mem_camelWords name (none ▸ (sharedWords_suffix member).subset held)

/-- **Names share the longest words that all of them end with. The name of an interface can be
declared, and it is what its structs' names share where that can be used. Where it is what they
share it is the name of no struct, unless the method gives what they share again.** -/
theorem interfaceName_from_shared_words {names : List (List Char)} (some_name : names ≠ [])
    (pattern : MethodPattern) :
    (∀ name ∈ names, (camelWords name).flatten = name ∧ [] ∉ camelWords name) ∧
    lookUpSuffix? names = some (sharedSuffix names) ∧
    (sharedSuffix names = none ↔
      ¬∃ word, ∀ name ∈ names, (camelWords name).getLast? = some word) ∧
    (∀ suffix, sharedSuffix names = some suffix → ∃ words c rest, LongestEnd names words ∧
      words.flatten = c :: rest ∧ suffix = c.toUpper :: rest) ∧
    nameFlaw? (interfaceName pattern) = none ∧
    (∀ name, sharedName? pattern = some name → nameFlaw? name = none →
      name ∉ structNames pattern → interfaceName pattern = name) ∧
    ((∀ name, sharedName? pattern = some name → interfaceName pattern = name →
        name ∉ structNames pattern) ↔
      ¬(sharedName? pattern = some (methodName pattern) ∧
        methodName pattern ∈ structNames pattern)) := by
  refine ⟨fun name _ => ⟨flatten_camelWords name, nil_not_mem_camelWords name⟩,
    lookUpSuffix?_eq names, ?_, fun suffix found => ?_, nameFlaw?_interfaceName pattern,
    fun name => interfaceName_of_usable, interfaceName_apart_iff pattern⟩
  · rw [sharedSuffix_eq, ← sharedWords_eq_nil_iff some_name]
    simp
  · rw [sharedSuffix_eq] at found
    split at found
    · cases found
    · rename_i some_word
      obtain ⟨c, rest, flat⟩ := exists_flatten_sharedWords some_name some_word
      refine ⟨sharedWords names, c, rest, longestEnd_sharedWords some_name, flat, ?_⟩
      rw [← Option.some.inj found, flat]
      rfl

/-- Structs whose names share the name of one of them, with the method that names the same agent. -/
def closers : MethodPattern where
  methods := [⟨"Close", "()"⟩]
  implementers := [⟨"Closer", "m/p", "p/a.go"⟩, ⟨"FileCloser", "m/p", "p/a.go"⟩]

/-- The structs share the name of one of them, so it is not used; but the agent noun of the method
is that name again. -/
theorem interfaceName_closers :
    (∃ words c rest, LongestEnd ((structNames closers).map String.toList) words ∧
      words.flatten = c :: rest ∧ "Closer".toList = c.toUpper :: rest) ∧
    sharedName? closers = some "Closer" ∧ interfaceName closers = "Closer" ∧
    ¬∀ name, sharedName? closers = some name → interfaceName closers = name →
      name ∉ structNames closers := by
  have some_name : (structNames closers).map String.toList ≠ [] := by decide
  have shared : sharedSuffix ((structNames closers).map String.toList) = some "Closer".toList := by
    decide +kernel
  have named : methodName closers = "Closer" := by decide +kernel
  have shared_name : sharedName? closers = some "Closer" := by
    rw [sharedName?, shared, Option.map_some, String.ofList_toList]
  obtain ⟨-, -, -, longest, -, -, apart⟩ := interfaceName_from_shared_words some_name closers
  refine ⟨longest _ shared, shared_name, by decide +kernel, ?_⟩
  rw [apart, not_not, named]
  exact ⟨shared_name, by decide⟩

end Naming

end GoRefactor
