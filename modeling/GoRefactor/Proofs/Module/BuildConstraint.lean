import GoRefactor.Proofs.Module.TagExpr
import GoRefactor.Proofs.Text.Split
import Mathlib.Data.List.Chain
import Mathlib.Data.List.TakeWhile

/-!
# Build constraints of files

The text of a constraint spells symbols, with any white space between them, and cutting it gives
them back. The constraint of a file is the first one among its leading blank and comment lines, and
the file is left out exactly if an expression that leads the constraint's symbols is false.
-/

namespace GoRefactor

/-! ## Spelling -/

/-- The character may stand in a tag: it is neither white space nor part of another symbol. -/
def isTagChar (c : Char) : Bool :=
  !isBlank c && c != '(' && c != ')' && c != '!' && c != '&' && c != '|'

/-- The characters are those of a tag. -/
def IsTag (name : List Char) : Prop := name ≠ [] ∧ ∀ c ∈ name, isTagChar c = true

/-- White space, or nothing. -/
def IsSpace (blanks : List Char) : Prop := ∀ c ∈ blanks, isBlank c = true

namespace TagToken

/-- How a symbol is spelled. -/
def spelling : TagToken → List Char
  | .word name => name
  | .bang => ['!']
  | .both => ['&', '&']
  | .either => ['|', '|']
  | .opening => ['(']
  | .closing => [')']

/-- The symbol is a word. -/
def IsWord (symbol : TagToken) : Prop := ∃ name, symbol = .word name

/-- The text spells the symbols one after the other, with any white space around them. -/
inductive Spells : List TagToken → List Char → Prop where
  /-- White space alone spells nothing. -/
  | nil {blanks : List Char} (space : IsSpace blanks) : Spells [] blanks
  /-- A symbol behind white space. -/
  | cons {symbol : TagToken} {symbols : List TagToken} {blanks text : List Char}
      (space : IsSpace blanks) (rest : Spells symbols text) :
      Spells (symbol :: symbols) (blanks ++ (symbol.spelling ++ text))

/-- A symbol stands in front of what follows. -/
theorem Spells.behind {symbols : List TagToken} {text : List Char} (symbol : TagToken)
    (rest : Spells symbols text) : Spells (symbol :: symbols) (symbol.spelling ++ text) :=
  .cons (List.forall_mem_nil _) rest

/-- White space in front makes no difference. -/
theorem Spells.blank_cons {symbols : List TagToken} {text : List Char} {c : Char}
    (blank : isBlank c = true) (spells : Spells symbols text) : Spells symbols (c :: text) := by
  cases spells with
  | nil space => exact .nil (List.forall_mem_cons.mpr ⟨blank, space⟩)
  | cons space rest => exact .cons (List.forall_mem_cons.mpr ⟨blank, space⟩) rest

/-- A word that is under way is spelled in front of what follows. -/
theorem Spells.behind_word {symbols : List TagToken} {text : List Char} (word : List Char)
    (spells : Spells symbols text) : Spells (finish word ++ symbols) (word.reverse ++ text) := by
  unfold TagToken.finish
  split
  · rename_i empty
    rw [List.isEmpty_iff.mp empty]
    exact spells
  · exact spells.behind (.word word.reverse)

/-- Every text spells the symbols that it is cut into. -/
theorem spells_scanFrom (word text : List Char) :
    Spells (scanFrom word text) (word.reverse ++ text) := by
  fun_induction scanFrom word text with
  | case1 word =>
    have spells := Spells.behind_word word (.nil (List.forall_mem_nil _))
    rwa [List.append_nil] at spells
  | case2 word rest ih => exact (ih.behind .both).behind_word word
  | case3 word rest ih => exact (ih.behind .either).behind_word word
  | case4 word c rest _ _ opens ih =>
    exact beq_iff_eq.mp opens ▸ (ih.behind .opening).behind_word word
  | case5 word c rest _ _ _ closes ih =>
    exact beq_iff_eq.mp closes ▸ (ih.behind .closing).behind_word word
  | case6 word c rest _ _ _ _ negates ih =>
    exact beq_iff_eq.mp negates ▸ (ih.behind .bang).behind_word word
  | case7 word c rest _ _ _ _ _ blank ih => exact (ih.blank_cons blank).behind_word word
  | case8 word c rest _ _ _ _ _ _ ih =>
    rwa [List.reverse_cons, List.append_assoc, List.singleton_append] at ih

/-! ## Cutting what is spelled -/

/-- A character that begins no operator of two characters is an operator, ends a word or is part of
one. -/
theorem scanFrom_cons {c : Char} (both : c ≠ '&') (either : c ≠ '|') (word rest : List Char) :
    scanFrom word (c :: rest) =
      if c == '(' then finish word ++ .opening :: scanFrom [] rest
      else if c == ')' then finish word ++ .closing :: scanFrom [] rest
      else if c == '!' then finish word ++ .bang :: scanFrom [] rest
      else if isBlank c then finish word ++ scanFrom [] rest
      else scanFrom (c :: word) rest := by
  rw [scanFrom]
  · exact fun _ same _ => both same
  · exact fun _ same _ => either same

/-- White space is none of the characters that are not white space. -/
theorem ne_of_isBlank {c other : Char} (blank : isBlank c = true)
    (visible : isBlank other = false) : c ≠ other := by
  rintro rfl
  rw [blank] at visible
  cases visible

/-- White space ends a word. -/
theorem scanFrom_blank {c : Char} (blank : isBlank c = true) (word rest : List Char) :
    scanFrom word (c :: rest) = finish word ++ scanFrom [] rest := by
  have apart {other : Char} (visible : isBlank other = false) : ¬(c == other) = true :=
    fun same => ne_of_isBlank blank visible (beq_iff_eq.mp same)
  rw [scanFrom_cons (ne_of_isBlank blank (by decide)) (ne_of_isBlank blank (by decide)),
    if_neg (apart (by decide)), if_neg (apart (by decide)), if_neg (apart (by decide)),
    if_pos blank]

/-- A character of a tag belongs to the word. -/
theorem scanFrom_tagChar {c : Char} (tagChar : isTagChar c = true) (word rest : List Char) :
    scanFrom word (c :: rest) = scanFrom (c :: word) rest := by
  simp only [isTagChar, Bool.and_eq_true, bne_iff_ne, Bool.not_eq_true'] at tagChar
  obtain ⟨⟨⟨⟨⟨visible, opens⟩, closes⟩, negates⟩, both⟩, either⟩ := tagChar
  rw [scanFrom_cons both either]
  simp [visible, opens, closes, negates]

/-- The characters of a tag are put together. -/
theorem scanFrom_tag {name : List Char} (tag : ∀ c ∈ name, isTagChar c = true)
    (word rest : List Char) :
    scanFrom word (name ++ rest) = scanFrom (name.reverse ++ word) rest := by
  induction name generalizing word with
  | nil => rfl
  | cons c cs ih =>
    obtain ⟨first, later⟩ := List.forall_mem_cons.mp tag
    rw [List.cons_append, scanFrom_tagChar first, ih later, List.reverse_cons, List.append_assoc,
      List.singleton_append]

/-- A symbol that is not a word is cut off, and ends a word. -/
theorem scanFrom_symbol {symbol : TagToken} (other : ¬symbol.IsWord) (word rest : List Char) :
    scanFrom word (symbol.spelling ++ rest) = finish word ++ symbol :: scanFrom [] rest := by
  cases symbol with
  | word name => exact absurd ⟨name, rfl⟩ other
  | bang => exact scanFrom_cons (by decide) (by decide) word rest
  | both => rfl
  | either => rfl
  | opening => exact scanFrom_cons (by decide) (by decide) word rest
  | closing => exact scanFrom_cons (by decide) (by decide) word rest

/-- White space in front does not change into what a text is cut. -/
theorem scanFrom_space {blanks text word : List Char} {symbols : List TagToken}
    (space : IsSpace blanks) (plain : scanFrom [] text = symbols)
    (cut : scanFrom word text = finish word ++ symbols) :
    scanFrom word (blanks ++ text) = finish word ++ symbols := by
  induction blanks generalizing word with
  | nil => exact cut
  | cons c cs ih =>
    obtain ⟨blank, later⟩ := List.forall_mem_cons.mp space
    rw [List.cons_append, scanFrom_blank blank, ih later plain]
    rfl

/-- No two words stand next to each other. -/
def Apart (symbols : List TagToken) : Prop :=
  symbols.IsChain fun left right => ¬(left.IsWord ∧ right.IsWord)

/-- **What spells symbols is cut into them**, if their words are tags and stand apart. -/
theorem Spells.scanFrom_eq {symbols : List TagToken} {text : List Char}
    (spells : Spells symbols text) (tags : ∀ name, .word name ∈ symbols → IsTag name)
    (apart : Apart symbols) (word : List Char)
    (free : word = [] ∨ ∀ first ∈ symbols.head?, ¬first.IsWord) :
    scanFrom word text = finish word ++ symbols := by
  -- A word that is under way must not run into a word that is spelled next.
  induction spells generalizing word with
  | @nil blanks space =>
    have empty (word : List Char) : scanFrom word [] = finish word ++ [] :=
      (List.append_nil _).symm
    rw [← List.append_nil blanks]
    exact scanFrom_space space (empty []) (empty word)
  | @cons symbol symbols blanks text space rest ih =>
    have tags' (name : List Char) (member : .word name ∈ symbols) : IsTag name :=
      tags name (List.mem_cons_of_mem _ member)
    have parts := List.isChain_cons.mp apart
    have later := ih tags' parts.2
    have cut (word : List Char) (free : word = [] ∨ ¬symbol.IsWord) :
        scanFrom word (symbol.spelling ++ text) = finish word ++ symbol :: symbols := by
      by_cases isWord : symbol.IsWord
      · obtain ⟨name, rfl⟩ := isWord
        obtain ⟨filled, chars⟩ := tags name List.mem_cons_self
        have next : ∀ first ∈ symbols.head?, ¬first.IsWord := fun first member following =>
          parts.1 first member ⟨⟨name, rfl⟩, following⟩
        rw [free.resolve_right (not_not_intro ⟨name, rfl⟩), spelling, scanFrom_tag chars,
          later _ (Or.inr next), List.append_nil]
        have single : finish name.reverse = [.word name] := by
          simp [finish, filled]
        rw [single]
        rfl
      · rw [scanFrom_symbol isWord, later [] (Or.inl rfl)]
        rfl
    refine scanFrom_space space (cut [] (Or.inl rfl)) (cut word ?_)
    exact free.imp_right fun first => first symbol rfl

end TagToken

/-- Between two words of an expression stands an operator. -/
theorem TagExpr.Writes.apart {binding : Binding} {expr : TagExpr} {symbols : List TagToken}
    (written : Writes binding expr symbols) : TagToken.Apart symbols := by
  have around {left right : List TagToken} {symbol : TagToken} (other : ¬symbol.IsWord)
      (first : TagToken.Apart left) (second : TagToken.Apart right) :
      TagToken.Apart (left ++ symbol :: right) := by
    refine List.isChain_append.mpr ⟨first, List.isChain_cons.mpr ⟨?_, second⟩, ?_⟩
    · exact fun _ _ words => other words.1
    · rintro _ _ _ ⟨⟩ words
      exact other words.2
  have noWord {symbol : TagToken} (other : ∀ name, symbol ≠ .word name) : ¬symbol.IsWord :=
    fun ⟨name, same⟩ => other name same
  induction written with
  | tag name => exact List.isChain_singleton _
  | not _ ih => exact @around [] _ _ (noWord (by simp)) List.isChain_nil ih
  | group _ ih =>
    exact @around [] _ _ (noWord (by simp)) List.isChain_nil
      (around (noWord (by simp)) ih List.isChain_nil)
  | ofOperand _ ih => exact ih
  | and _ _ ih ih' => exact around (noWord (by simp)) ih ih'
  | ofConjunction _ ih => exact ih
  | or _ _ ih ih' => exact around (noWord (by simp)) ih ih'

/-! ## Trimming -/

namespace Blank

/-- Behind a visible character, only what follows is trimmed at the end. -/
theorem trimEnd_append {last : Char} (visible : isBlank last = false) (front back : List Char) :
    trimEnd (front ++ last :: back) = front ++ last :: trimEnd back := by
  rw [trimEnd, trimEnd, List.reverse_append, List.reverse_cons, List.append_assoc,
    List.dropWhile_append]
  split
  · rename_i empty
    rw [List.singleton_append, List.dropWhile_cons_of_neg (by simp [visible]),
      List.isEmpty_iff.mp empty]
    simp
  · simp

/-- White space is trimmed away. -/
theorem trimEnd_space {blanks : List Char} (space : IsSpace blanks) : trimEnd blanks = [] := by
  rw [trimEnd, List.dropWhile_eq_nil_iff.mpr fun c member => space c (List.mem_reverse.mp member)]
  rfl

/-- A text that starts with a visible character is trimmed at its end only. -/
theorem trim_cons {first : Char} (visible : isBlank first = false) (rest : List Char) :
    trim (first :: rest) = first :: trimEnd rest := by
  rw [trim, trimStart, List.dropWhile_cons_of_neg (by simp [visible])]
  exact trimEnd_append visible [] rest

/-- White space at the end is trimmed. -/
theorem trim_concat {c : Char} (blank : isBlank c = true) (front : List Char) :
    trim (front ++ [c]) = trim front := by
  have last : trimStart [c] = [] := List.dropWhile_cons_of_pos blank
  rw [trim, trim, trimStart, List.dropWhile_append]
  split
  · rename_i empty
    rw [trimStart, List.isEmpty_iff.mp empty]
    exact congrArg trimEnd last
  · rw [trimEnd, List.reverse_append, List.reverse_singleton, List.singleton_append,
      List.dropWhile_cons_of_pos blank]
    rfl

/-- The carriage return in front of a line break is white space. -/
theorem trim_dropReturn (line : List Char) : trim (dropReturn line) = trim line := by
  unfold dropReturn
  split
  · rename_i rest ends
    rw [← List.reverse_reverse line, ends, List.reverse_cons]
    exact (trim_concat (by decide) _).symm
  · rfl

end Blank

/-- White space at the end of a text is not needed for what it spells. -/
theorem TagToken.Spells.trimEnd {symbols : List TagToken} {text : List Char}
    (spells : Spells symbols text) (tags : ∀ name, .word name ∈ symbols → IsTag name) :
    Spells symbols (Blank.trimEnd text) := by
  induction spells with
  | nil space =>
    rw [Blank.trimEnd_space space]
    exact .nil (List.forall_mem_nil _)
  | @cons symbol symbols blanks text space rest ih =>
    have visible : ∃ front last, symbol.spelling = front ++ [last] ∧ isBlank last = false := by
      cases symbol with
      | word name =>
        obtain ⟨filled, chars⟩ := tags name List.mem_cons_self
        refine ⟨name.dropLast, name.getLast filled, (List.dropLast_append_getLast filled).symm, ?_⟩
        have tagChar := chars _ (List.getLast_mem filled)
        simp only [isTagChar, Bool.and_eq_true, Bool.not_eq_true'] at tagChar
        exact tagChar.1.1.1.1.1
      | bang => exact ⟨[], '!', rfl, by decide⟩
      | both => exact ⟨['&'], '&', rfl, by decide⟩
      | either => exact ⟨['|'], '|', rfl, by decide⟩
      | opening => exact ⟨[], '(', rfl, by decide⟩
      | closing => exact ⟨[], ')', rfl, by decide⟩
    obtain ⟨front, last, spelled, shown⟩ := visible
    have later := ih fun name member => tags name (List.mem_cons_of_mem _ member)
    have trimmed : Blank.trimEnd (blanks ++ (symbol.spelling ++ text)) =
        blanks ++ (symbol.spelling ++ Blank.trimEnd text) := by
      rw [spelled, List.append_assoc, List.singleton_append, ← List.append_assoc,
        Blank.trimEnd_append shown]
      simp
    rw [trimmed]
    exact .cons space later

/-! ## Constraints among lines -/

/-- The line is blank, or a comment that states no constraint. -/
def IsPreamble (line : List Char) : Prop :=
  Blank.trim line = [] ∨
    "//".toList <+: Blank.trim line ∧ ¬constraintMark <+: Blank.trim line

/-- The first constraint of a file has the text: blank and comment lines stand in front of the line
that states it. -/
def StatesConstraint (text content : List Char) : Prop :=
  ∃ before line, StandsBehind '\n' before line content ∧ (∀ other ∈ before, IsPreamble other) ∧
    Blank.trim line = constraintMark ++ text

/-- Behind a mark stands what follows it. -/
theorem behindMark?_eq_some_iff {mark line text : List Char} :
    behindMark? mark line = some text ↔ line = mark ++ text := by
  unfold behindMark?
  constructor
  · intro given
    split at given
    · rename_i marked
      have whole := List.prefix_iff_eq_append.mp (List.isPrefixOf_iff_prefix.mp marked)
      rw [← Option.some.inj given, whole]
    · cases given
  · rintro rfl
    rw [if_pos (List.isPrefixOf_iff_prefix.mpr (List.prefix_append _ _)), List.drop_left]

/-- Nothing stands behind a mark that is not there. -/
theorem behindMark?_eq_none_iff {mark line : List Char} :
    behindMark? mark line = none ↔ ¬mark <+: line := by
  unfold behindMark?
  rw [← List.isPrefixOf_iff_prefix]
  split
  · rename_i marked
    simp [marked]
  · rename_i unmarked
    simp [unmarked]

/-- The line may stand in front of a constraint, or state one. -/
def isLeading (line : List Char) : Bool := line.isEmpty || "//".toList.isPrefixOf line

/-- The text of the first constraint among the leading ones of trimmed lines. -/
def firstConstraint? (lines : List (List Char)) : Option (List Char) :=
  (lines.takeWhile isLeading).findSome? (behindMark? constraintMark)

/-- An empty line at the end states nothing. -/
theorem firstConstraint?_concat_nil (lines : List (List Char)) :
    firstConstraint? (lines ++ [[]]) = firstConstraint? lines := by
  have nothing : ([[]] : List (List Char)).findSome? (behindMark? constraintMark) = none := by
    decide
  unfold firstConstraint?
  rw [List.takeWhile_append]
  split
  · rename_i all
    have whole : lines.takeWhile isLeading = lines :=
      (List.takeWhile_prefix isLeading).eq_of_length all
    rw [whole, List.findSome?_append]
    exact (congrArg _ nothing).trans Option.or_none
  · rfl

/-- The lines of a text, trimmed, are its trimmed pieces, but for an empty one at the end. -/
theorem map_trim_splitChars (content : List Char) :
    let trimmed := (linesOf content).map Blank.trim
    (splitChars '\n' content).map Blank.trim = trimmed ∨
      (splitChars '\n' content).map Blank.trim = trimmed ++ [[]] := by
  have same (lines : List (List Char)) :
      (lines.map dropReturn).map Blank.trim = lines.map Blank.trim := by
    rw [List.map_map]
    exact List.map_congr_left fun line _ => Blank.trim_dropReturn line
  unfold linesOf
  cases last : (splitChars '\n' content).getLast? with
  | none => exact absurd (List.getLast?_eq_none_iff.mp last) (splitChars_ne_nil _ _)
  | some line =>
    obtain ⟨front, whole⟩ := List.getLast?_eq_some_iff.mp last
    simp only [whole, List.getLast?_concat, List.dropLast_concat, List.map_append]
    cases line with
    | nil => exact Or.inr (congrArg (· ++ [[]]) (same front).symm)
    | cons c cs =>
      left
      rw [List.map_append, same]

/-- The constraint of a text is looked for among its trimmed pieces. -/
theorem constraintText?_eq (content : List Char) :
    constraintText? content = firstConstraint? ((splitChars '\n' content).map Blank.trim) := by
  have unfolded : constraintText? content = firstConstraint? ((linesOf content).map Blank.trim) :=
    rfl
  rw [unfolded]
  rcases map_trim_splitChars content with same | longer
  · rw [same]
  · rw [longer, firstConstraint?_concat_nil]

/-- A line that states a constraint is a comment. -/
theorem isLeading_constraint (text : List Char) : isLeading (constraintMark ++ text) = true := rfl

/-- Lines that may stand in front of a constraint and state none. -/
theorem isPreamble_iff {line : List Char} :
    IsPreamble line ↔ isLeading (Blank.trim line) = true ∧
      behindMark? constraintMark (Blank.trim line) = none := by
  rw [IsPreamble, behindMark?_eq_none_iff, isLeading, Bool.or_eq_true, List.isEmpty_iff,
    List.isPrefixOf_iff_prefix, or_and_right]
  constructor
  · rintro (empty | comment)
    · refine Or.inl ⟨empty, ?_⟩
      rw [empty]
      decide
    · exact Or.inr comment
  · rintro (⟨empty, -⟩ | comment)
    · exact Or.inl empty
    · exact Or.inr comment

/-- The first constraint among lines stands behind lines that state none. -/
theorem firstConstraint?_eq_some_iff {lines : List (List Char)} {text : List Char} :
    firstConstraint? (lines.map Blank.trim) = some text ↔
      ∃ before line after, lines = before ++ line :: after ∧
        (∀ other ∈ before, IsPreamble other) ∧ Blank.trim line = constraintMark ++ text := by
  unfold firstConstraint?
  rw [List.findSome?_eq_some_iff]
  constructor
  · rintro ⟨front, marked, back, taken, found, unmarked⟩
    have whole := List.takeWhile_append_dropWhile (p := isLeading) (l := lines.map Blank.trim)
    rw [taken, List.append_assoc, List.cons_append] at whole
    obtain ⟨before, others, rfl, rfl, following⟩ := List.map_eq_append_iff.mp whole.symm
    obtain ⟨line, after, rfl, rfl, -⟩ := List.map_eq_cons_iff.mp following
    refine ⟨before, line, after, rfl, fun other member => ?_, behindMark?_eq_some_iff.mp found⟩
    have trimmed := List.mem_map_of_mem (f := Blank.trim) member
    have leading : isLeading (Blank.trim other) = true :=
      List.mem_takeWhile_imp (taken ▸ List.mem_append_left _ trimmed)
    exact isPreamble_iff.mpr ⟨leading, unmarked _ trimmed⟩
  · rintro ⟨before, line, after, rfl, preamble, stated⟩
    have leading : ∀ other ∈ before.map Blank.trim, isLeading other = true := by
      intro other member
      obtain ⟨given, inside, rfl⟩ := List.mem_map.mp member
      exact (isPreamble_iff.mp (preamble given inside)).1
    refine ⟨before.map Blank.trim, Blank.trim line, (after.map Blank.trim).takeWhile isLeading,
      ?_, behindMark?_eq_some_iff.mpr stated, fun other member => ?_⟩
    · rw [List.map_append, List.map_cons, List.takeWhile_append_of_pos leading,
        List.takeWhile_cons_of_pos (stated ▸ isLeading_constraint text)]
    · obtain ⟨given, inside, rfl⟩ := List.mem_map.mp member
      exact (isPreamble_iff.mp (preamble given inside)).2

/-- **The constraint that is found is the first one that is stated.** -/
theorem constraintText?_eq_some_iff {content text : List Char} :
    constraintText? content = some text ↔ StatesConstraint text content := by
  rw [constraintText?_eq, firstConstraint?_eq_some_iff]
  constructor
  · rintro ⟨before, line, after, cut, preamble, stated⟩
    exact ⟨before, line, standsBehind_iff.mpr ⟨after, cut⟩, preamble, stated⟩
  · rintro ⟨before, line, stands, preamble, stated⟩
    obtain ⟨after, cut⟩ := standsBehind_iff.mp stands
    exact ⟨before, line, after, cut, preamble, stated⟩

/-- Truth of what a build reads of the symbols of a constraint: what cannot be read is true. -/
theorem buildSatisfied_of_states {content : String} {text : List Char}
    (states : StatesConstraint text content.toList) (tags : List String) :
    buildSatisfied content tags = false ↔
      ∃ expr rest, TagExpr.disjunction? (TagToken.scan text) = some (expr, rest) ∧
        ¬expr.Holds tags := by
  rw [buildSatisfied, constraintText?_eq_some_iff.mpr states]
  dsimp only
  rw [TagExpr.read?_eq]
  cases given : TagExpr.disjunction? (TagToken.scan text) with
  | none => simp
  | some found =>
    rw [Option.map_some, ← Bool.not_eq_true]
    dsimp only
    rw [TagExpr.eval_iff_holds]
    constructor
    · intro fails
      exact ⟨found.1, found.2, rfl, fails⟩
    · rintro ⟨expr, rest, same, fails⟩
      cases same
      exact fails

/-- The text is white space and then nothing but an expression over tags. -/
structure IsConstraint (expr : TagExpr) (text : List Char) : Prop where
  /-- White space comes first. -/
  behindSpace : ∃ first ∈ text.head?, isBlank first = true
  /-- The rest spells symbols that write the expression. -/
  spells : ∃ symbols, expr.Writes .disjunction symbols ∧ TagToken.Spells symbols text
  /-- The words are tags. -/
  tags : ∀ name ∈ expr.names, IsTag name

/-- The symbols of a constraint are those that write its expression. -/
theorem IsConstraint.exists_scan {expr : TagExpr} {text : List Char}
    (constraint : IsConstraint expr text) :
    ∃ symbols, expr.Writes .disjunction symbols ∧ TagToken.scan text = symbols := by
  obtain ⟨symbols, writes, spells⟩ := constraint.spells
  have tags (name : List Char) (member : .word name ∈ symbols) : IsTag name :=
    constraint.tags name ((writes.word_mem_iff name).mp member)
  exact ⟨symbols, writes, spells.scanFrom_eq tags writes.apart [] (Or.inl rfl)⟩

/-- An expression that is not followed by anything leads its symbols. -/
theorem TagExpr.Writes.leads {expr : TagExpr} {symbols : List TagToken}
    (writes : expr.Writes .disjunction symbols) : expr.Leads symbols [] :=
  ⟨writes, by simp, by simp⟩

/-- **Well-formed constraints have the meaning of their expressions.** In a file whose first lines
are blank or comments that state no constraint, and then a line that consists of the mark, a space
and any expression over tags, written with parentheses at least where they are needed and with any
white space, the file takes part in a build exactly if the expression is true for its tags. -/
theorem buildSatisfied_iff_holds {before : List (List Char)} {expr : TagExpr}
    {symbols : List TagToken} {text after : List Char}
    (preamble : ∀ line ∈ before, '\n' ∉ line ∧ IsPreamble line)
    (named : ∀ name ∈ expr.names, IsTag name) (writes : expr.Writes .disjunction symbols)
    (spells : TagToken.Spells symbols text) (oneLine : '\n' ∉ text)
    (ends : after = [] ∨ after.head? = some '\n') (tags : List String) :
    let content := fullLines '\n' before ++ "//go:build ".toList ++ text ++ after
    buildSatisfied (String.ofList content) tags = true ↔ expr.Holds tags := by
  dsimp only
  have words (name : List Char) (member : .word name ∈ symbols) : IsTag name :=
    named name ((writes.word_mem_iff name).mp member)
  have trimmed : Blank.trim ("//go:build ".toList ++ text) =
      constraintMark ++ Blank.trimEnd (' ' :: text) := by
    have split : "//go:build ".toList ++ text = "//go:buil".toList ++ 'd' :: ' ' :: text := rfl
    rw [split]
    exact (Blank.trim_cons (by decide) _).trans
      (congrArg ('/' :: ·) (Blank.trimEnd_append (by decide) "/go:buil".toList _))
  have states : StatesConstraint (Blank.trimEnd (' ' :: text)) (String.ofList
      (fullLines '\n' before ++ "//go:build ".toList ++ text ++ after)).toList := by
    rw [String.toList_ofList]
    refine ⟨before, "//go:build ".toList ++ text, ⟨fun line member => (preamble line member).1,
      ?_, after, by rw [List.append_assoc (fullLines '\n' before)], ends⟩,
      fun line member => (preamble line member).2, trimmed⟩
    rw [List.mem_append, not_or]
    exact ⟨by decide, oneLine⟩
  have scanned : TagToken.scan (Blank.trimEnd (' ' :: text)) = symbols :=
    ((spells.blank_cons (by decide)).trimEnd words).scanFrom_eq words writes.apart []
      (Or.inl rfl)
  obtain ⟨found, alike, given⟩ := writes.leads.disjunction?_eq
  rw [List.append_nil] at given
  rw [← not_iff_not, Bool.not_eq_true, buildSatisfied_of_states states, scanned, given]
  constructor
  · rintro ⟨expr', rest, same, fails⟩
    cases same
    exact fun holds => fails ((alike tags).mpr holds)
  · intro fails
    exact ⟨found, [], rfl, fun holds => fails ((alike tags).mp holds)⟩

/-- A constraint behind two lines, with a group and little white space. -/
theorem buildSatisfied_iff_holds_group :
    buildSatisfied (String.ofList (fullLines '\n' ["// c".toList, []] ++ "//go:build ".toList ++
      "(a||b)&& !c".toList ++ "\npackage p\n".toList)) ["b"] = true := by
  have writes : TagExpr.Writes .disjunction
      (.and (.or (.tag ['a']) (.tag ['b'])) (.not (.tag ['c'])))
      [.opening, .word ['a'], .either, .word ['b'], .closing, .both, .bang, .word ['c']] :=
    .ofConjunction (.and
      (.ofOperand (.group (.or (.ofConjunction (.ofOperand (.tag ['a'])))
        (.ofConjunction (.ofOperand (.tag ['b']))))))
      (.ofOperand (.not (.tag ['c']))))
  have preamble : ∀ line ∈ ["// c".toList, []], '\n' ∉ line ∧ IsPreamble line := by
    simp only [List.forall_mem_cons, isPreamble_iff]
    exact ⟨by decide, by decide, List.forall_mem_nil _⟩
  refine (buildSatisfied_iff_holds preamble ?_ writes
    (TagToken.spells_scanFrom [] "(a||b)&& !c".toList) (by decide) (Or.inr rfl) ["b"]).mpr ?_
  · have tag (c : Char) (allowed : isTagChar c = true) : IsTag [c] :=
      ⟨List.cons_ne_nil _ _, List.forall_mem_singleton.mpr allowed⟩
    simp only [TagExpr.names, List.cons_append, List.nil_append, List.forall_mem_cons]
    exact ⟨tag 'a' rfl, tag 'b' rfl, tag 'c' rfl, List.forall_mem_nil _⟩
  · simp [TagExpr.Holds]

/-- **When a file is left out.** A file is left out of a build exactly if its first line among the
leading blank and comment lines that starts with the mark is followed by a text whose symbols are
led by an expression that is false for the tags. What is left out so is left out by a real
constraint (white space behind the mark, then nothing but a false expression over tags) exactly if
white space follows the mark, no symbol is left behind the expression, and each of its words is a
tag. -/
theorem buildSatisfied_eq_false_iff (content : String) (tags : List String) :
    (buildSatisfied content tags = false ↔
      ∃ text, ∃ expr : TagExpr, ∃ written rest, StatesConstraint text content.toList ∧
        TagToken.scan text = written ++ rest ∧ expr.Leads written rest ∧ ¬expr.Holds tags) ∧
    ∀ text (expr : TagExpr) written rest, StatesConstraint text content.toList →
      TagToken.scan text = written ++ rest → expr.Leads written rest → ¬expr.Holds tags →
      ((∃ other : TagExpr, IsConstraint other text ∧ ¬other.Holds tags) ↔
        (∃ first ∈ text.head?, isBlank first = true) ∧ rest = [] ∧
          ∀ name ∈ expr.names, IsTag name) := by
  constructor
  · constructor
    · intro leftOut
      cases stated : constraintText? content.toList with
      | none =>
        rw [buildSatisfied, stated] at leftOut
        cases leftOut
      | some text =>
        have states := constraintText?_eq_some_iff.mp stated
        obtain ⟨expr, rest, given, fails⟩ := (buildSatisfied_of_states states tags).mp leftOut
        obtain ⟨written, cut, leads⟩ := TagExpr.leads_of_disjunction? given
        exact ⟨text, expr, written, rest, states, cut, leads, fails⟩
    · rintro ⟨text, expr, written, rest, states, cut, leads, fails⟩
      obtain ⟨found, alike, given⟩ := leads.disjunction?_eq
      refine (buildSatisfied_of_states states tags).mpr ⟨found, rest, cut ▸ given, ?_⟩
      exact fun holds => fails ((alike tags).mp holds)
  · intro text expr written rest states cut leads fails
    constructor
    · rintro ⟨other, constraint, -⟩
      obtain ⟨symbols, writes, scanned⟩ := constraint.exists_scan
      have same : symbols ++ [] = written ++ rest := by
        rw [List.append_nil, ← scanned, cut]
      obtain ⟨rfl, rfl, -⟩ := writes.leads.unique leads same
      refine ⟨constraint.behindSpace, rfl, fun name member => constraint.tags name ?_⟩
      exact (writes.word_mem_iff name).mp ((leads.writes.word_mem_iff name).mpr member)
    · rintro ⟨space, rfl, named⟩
      have spells := TagToken.spells_scanFrom [] text
      rw [List.append_nil] at cut
      exact ⟨expr, ⟨space, ⟨written, leads.writes, cut ▸ spells⟩, named⟩, fails⟩

/-- A comment that only begins like the mark leaves a file out. -/
theorem buildSatisfied_eq_false_withoutSpace :
    buildSatisfied "//go:builda\npackage a\n" ["b"] = false ∧
      ¬∃ expr : TagExpr, IsConstraint expr ['a'] ∧ ¬expr.Holds ["b"] := by
  have states : StatesConstraint ['a'] "//go:builda\npackage a\n".toList :=
    constraintText?_eq_some_iff.mp (by decide)
  have leads : (TagExpr.tag ['a']).Leads [.word ['a']] [] :=
    (TagExpr.Writes.ofConjunction (.ofOperand (.tag ['a']))).leads
  have fails : ¬(TagExpr.tag ['a']).Holds ["b"] := by simp [TagExpr.Holds]
  have rule := buildSatisfied_eq_false_iff "//go:builda\npackage a\n" ["b"]
  refine ⟨rule.1.mpr ⟨['a'], .tag ['a'], [.word ['a']], [], states, rfl, leads, fails⟩, ?_⟩
  intro real
  obtain ⟨first, given, blank⟩ := ((rule.2 _ _ _ _ states rfl leads fails).mp real).1
  cases given
  exact absurd blank (by decide)

end GoRefactor
