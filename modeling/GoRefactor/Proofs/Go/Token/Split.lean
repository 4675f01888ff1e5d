import GoRefactor.Go.Token.Stream
import Mathlib.Data.List.Find

/-!
# Cutting texts into lexemes

Cutting a text succeeds with some lexemes exactly when the lexemes, written one after the other,
are the text, and each of them is what the text from its start on leads with. What a text leads
with is settled by the lexeme itself and by very little of what stands behind it: another name may
stand there in place of a name, except behind a number, and a line break may stand behind the end.
-/

namespace GoRefactor

namespace Lexeme

/-- The text that lexemes cover. -/
def flat (lexemes : List Lexeme) : List Char := lexemes.flatMap text

/-- The text of no lexemes is empty. -/
@[simp]
theorem flat_nil : flat [] = [] := rfl

/-- The text of the first lexeme comes first. -/
@[simp]
theorem flat_cons (lexeme : Lexeme) (rest : List Lexeme) :
    flat (lexeme :: rest) = lexeme.text ++ flat rest := rfl

/-- Texts follow each other as the lexemes do. -/
@[simp]
theorem flat_append (front back : List Lexeme) : flat (front ++ back) = flat front ++ flat back :=
  List.flatMap_append

/-- The text leads with the lexeme. -/
def Leads (lexeme : Lexeme) : List Char → Prop
  | [] => False
  | c :: cs => next c cs = .ok lexeme

/-- Each of the lexemes is what the text from its start on leads with. -/
def Cut : List Lexeme → Prop
  | [] => True
  | lexeme :: rest => lexeme.Leads (lexeme.text ++ flat rest) ∧ Cut rest

/-- Each of the lexemes of a text is led with where it stands. -/
theorem leads_of_cut {front back : List Lexeme} {lexeme : Lexeme}
    (cut : Cut (front ++ lexeme :: back)) : lexeme.Leads (lexeme.text ++ flat back) := by
  induction front with
  | nil => exact cut.1
  | cons first rest ih => exact ih cut.2

section Bodies

/-- A delimited comment ends with its delimiter. -/
theorem commentBody?_eq_some {cs body : List Char} (found : commentBody? cs = some body) :
    ∃ rest, cs = body ++ '*' :: '/' :: rest := by
  fun_induction commentBody? cs generalizing body with
  | case1 => cases found
  | case2 rest =>
    cases found
    exact ⟨rest, rfl⟩
  | case3 c cs _ ih =>
    obtain ⟨inner, same, rfl⟩ := Option.map_eq_some_iff.mp found
    obtain ⟨rest, rfl⟩ := ih same
    exact ⟨rest, rfl⟩

/-- What stands behind a delimited comment does not change it. -/
theorem commentBody?_append {cs body : List Char} (found : commentBody? cs = some body)
    (other : List Char) : commentBody? (body ++ '*' :: '/' :: other) = some body := by
  fun_induction commentBody? cs generalizing body with
  | case1 => cases found
  | case2 rest =>
    cases found
    rfl
  | case3 c cs notEnd ih =>
    obtain ⟨inner, same, rfl⟩ := Option.map_eq_some_iff.mp found
    obtain ⟨rest, rfl⟩ := commentBody?_eq_some same
    have step := ih same
    rw [List.cons_append, commentBody?, step]
    · rfl
    · intro tail star following
      cases inner with
      | nil => cases following
      | cons d inner =>
        cases following
        exact notEnd _ star rfl

/-- A quoted literal starts with its text. -/
theorem quotedBody?_eq_some {quote : Char} {cs body : List Char}
    (found : quotedBody? quote cs = some body) : ∃ rest, cs = body ++ rest := by
  fun_induction quotedBody? quote cs generalizing body with
  | case1 => cases found
  | case2 c cs ih =>
    obtain ⟨inner, same, rfl⟩ := Option.map_eq_some_iff.mp found
    obtain ⟨rest, rfl⟩ := ih same
    exact ⟨rest, rfl⟩
  | case3 => cases found
  | case4 c cs _ _ _ =>
    cases found
    exact ⟨cs, rfl⟩
  | case5 c cs _ _ _ ih =>
    obtain ⟨inner, same, rfl⟩ := Option.map_eq_some_iff.mp found
    obtain ⟨rest, rfl⟩ := ih same
    exact ⟨rest, rfl⟩

/-- What stands behind a quoted literal does not change it. -/
theorem quotedBody?_append {quote : Char} {cs body : List Char}
    (found : quotedBody? quote cs = some body) (other : List Char) :
    quotedBody? quote (body ++ other) = some body := by
  fun_induction quotedBody? quote cs generalizing body with
  | case1 => cases found
  | case2 c cs ih =>
    obtain ⟨inner, same, rfl⟩ := Option.map_eq_some_iff.mp found
    rw [List.cons_append, List.cons_append, quotedBody?, ih same]
    rfl
  | case3 => cases found
  | case4 c cs notEscape plain isQuote =>
    cases found
    have notBackslash : c ≠ '\\' := by
      rintro rfl
      exact plain (by decide)
    rw [List.cons_append, quotedBody?, if_neg plain, if_pos isQuote]
    rintro d ds rfl _
    exact notBackslash rfl
  | case5 c cs notEscape plain notQuote ih =>
    obtain ⟨inner, same, rfl⟩ := Option.map_eq_some_iff.mp found
    have notBackslash : c ≠ '\\' := by
      rintro rfl
      exact plain (by decide)
    rw [List.cons_append, quotedBody?, if_neg plain, if_neg notQuote, ih same]
    · rfl
    · rintro d ds rfl _
      exact notBackslash rfl

/-- A raw string starts with its text. -/
theorem rawBody?_eq_some {cs body : List Char} (found : rawBody? cs = some body) :
    ∃ rest, cs = body ++ rest := by
  fun_induction rawBody? cs generalizing body with
  | case1 => cases found
  | case2 c cs _ =>
    cases found
    exact ⟨cs, rfl⟩
  | case3 c cs _ ih =>
    obtain ⟨inner, same, rfl⟩ := Option.map_eq_some_iff.mp found
    obtain ⟨rest, rfl⟩ := ih same
    exact ⟨rest, rfl⟩

/-- What stands behind a raw string does not change it. -/
theorem rawBody?_append {cs body : List Char} (found : rawBody? cs = some body)
    (other : List Char) : rawBody? (body ++ other) = some body := by
  fun_induction rawBody? cs generalizing body with
  | case1 => cases found
  | case2 c cs isQuote =>
    cases found
    rw [List.cons_append, rawBody?, if_pos isQuote]
  | case3 c cs notQuote ih =>
    obtain ⟨inner, same, rfl⟩ := Option.map_eq_some_iff.mp found
    rw [List.cons_append, rawBody?, if_neg notQuote, ih same]
    rfl

/-- A number starts with its text. -/
theorem numberTail_prefix (hexadecimal : Bool) (last : Char) (cs : List Char) :
    ∃ rest, cs = numberTail hexadecimal last cs ++ rest := by
  fun_induction numberTail hexadecimal last cs with
  | case1 => exact ⟨[], rfl⟩
  | case2 last c cs sign belongs ih =>
    obtain ⟨rest, same⟩ := ih
    exact ⟨rest, by rw [List.cons_append, ← same]⟩
  | case3 last c cs sign belongs => exact ⟨c :: cs, rfl⟩

/-- An operator starts with its text. -/
theorem markText_prefix (c : Char) (cs : List Char) : ∃ rest, c :: cs = markText c cs ++ rest := by
  unfold markText
  split
  · rename_i known found
    have leads : known.isPrefixOf (c :: cs) = true :=
      List.find?_some (p := fun mark : List Char => mark.isPrefixOf (c :: cs)) found
    obtain ⟨rest, same⟩ := List.isPrefixOf_iff_prefix.mp leads
    exact ⟨rest, same.symm⟩
  · exact ⟨cs, rfl⟩

/-- An operator is not empty. -/
theorem markText_ne_nil (c : Char) (cs : List Char) : markText c cs ≠ [] := by
  unfold markText
  split
  · rename_i known found
    intro none
    have member := List.mem_of_find?_eq_some found
    rw [none] at member
    exact absurd member (by decide)
  · exact List.cons_ne_nil c []

end Bodies

section Leading

/-- A text starts with the lexeme that it leads with. -/
theorem next_prefix {c : Char} {cs : List Char} {lexeme : Lexeme}
    (leads : next c cs = .ok lexeme) :
    ∃ inner rest, lexeme.text = c :: inner ∧ cs = inner ++ rest := by
  unfold next at leads
  split at leads
  · rename_i isNewline
    cases leads
    exact ⟨[], cs, by rw [eq_of_beq isNewline]; rfl, rfl⟩
  split at leads
  · cases leads
    exact ⟨[], cs, rfl, rfl⟩
  split at leads
  · rename_i slashes
    cases leads
    obtain ⟨slash, second⟩ := Bool.and_eq_true_iff.mp slashes
    obtain ⟨rest, rfl⟩ := List.head?_eq_some_iff.mp (eq_of_beq second)
    rw [eq_of_beq slash]
    exact ⟨_, rest.dropWhile (· != '\n'), rfl, by
      rw [List.tail_cons, List.cons_append, List.takeWhile_append_dropWhile]⟩
  split at leads
  · rename_i delimiters
    obtain ⟨slash, second⟩ := Bool.and_eq_true_iff.mp delimiters
    obtain ⟨rest, rfl⟩ := List.head?_eq_some_iff.mp (eq_of_beq second)
    split at leads
    · rename_i body found
      cases leads
      obtain ⟨behind, same⟩ := commentBody?_eq_some found
      rw [List.tail_cons] at same
      rw [eq_of_beq slash, same]
      exact ⟨_, behind, rfl, by simp⟩
    · cases leads
  split at leads
  · split at leads
    · cases leads
      exact ⟨_, cs.dropWhile isNameChar, rfl, (List.takeWhile_append_dropWhile).symm⟩
    · cases leads
      exact ⟨[], cs, rfl, rfl⟩
  split at leads
  · cases leads
    obtain ⟨rest, same⟩ := numberTail_prefix (isHexadecimal c cs) c cs
    exact ⟨_, rest, rfl, same⟩
  split at leads
  · split at leads
    · rename_i body found
      cases leads
      obtain ⟨rest, same⟩ := quotedBody?_eq_some found
      exact ⟨body, rest, rfl, same⟩
    · cases leads
  split at leads
  · split at leads
    · rename_i body found
      cases leads
      obtain ⟨rest, same⟩ := rawBody?_eq_some found
      exact ⟨body, rest, rfl, same⟩
    · cases leads
  split at leads
  · rename_i isSemicolon
    cases leads
    exact ⟨[], cs, by rw [eq_of_beq isSemicolon]; rfl, rfl⟩
  · cases leads
    obtain ⟨rest, same⟩ := markText_prefix c cs
    cases known : markText c cs with
    | nil => exact absurd known (markText_ne_nil c cs)
    | cons first inner =>
      rw [known, List.cons_append] at same
      obtain ⟨rfl, rfl⟩ := List.cons.inj same
      exact ⟨inner, rest, rfl, rfl⟩

/-- Behind the lexeme that a text leads with stands what the text goes on with. -/
theorem drop_of_leads {c : Char} {cs rest : List Char} {lexeme : Lexeme}
    (leads : next c cs = .ok lexeme) (covers : c :: cs = lexeme.text ++ rest) :
    cs.drop (lexeme.text.length - 1) = rest := by
  obtain ⟨inner, behind, text, rfl⟩ := next_prefix leads
  rw [text, List.cons_append] at covers
  have same := List.append_cancel_left (List.cons.inj covers).2
  rw [text, List.length_cons, Nat.add_sub_cancel, List.drop_left, same]

/-- Cutting a text gives lexemes exactly when they cover it and each is led with in its turn. -/
theorem split_eq_ok_iff {line : Nat} {content : List Char} {lexemes : List Lexeme} :
    split line content = .ok lexemes ↔ content = flat lexemes ∧ Cut lexemes := by
  fun_induction split line content generalizing lexemes with
  | case1 line =>
    constructor
    · intro given
      cases given
      exact ⟨rfl, trivial⟩
    · rintro ⟨covers, cut⟩
      cases lexemes with
      | nil => rfl
      | cons lexeme rest =>
        rw [Cut, ← flat_cons, ← covers] at cut
        exact cut.1.elim
  | case2 line c cs flaw flawed =>
    constructor
    · intro given
      cases given
    · rintro ⟨covers, cut⟩
      cases lexemes with
      | nil => cases covers
      | cons lexeme rest =>
        rw [Cut, ← flat_cons, ← covers, Leads, flawed] at cut
        cases cut.1
  | case3 line c cs first leads failure failed ih =>
    constructor
    · intro given
      cases given
    · rintro ⟨covers, cut⟩
      cases lexemes with
      | nil => cases covers
      | cons lexeme rest =>
        rw [Cut, ← flat_cons, ← covers, Leads, leads] at cut
        obtain ⟨same, others⟩ := cut
        cases same
        have further := ih.mpr ⟨drop_of_leads leads covers, others⟩
        rw [failed] at further
        cases further
  | case4 line c cs first leads rest rested ih =>
    have inner := ih.mp rested
    constructor
    · intro given
      cases given
      obtain ⟨within, behind, text, same⟩ := next_prefix leads
      have covers : c :: cs = flat (first :: rest) := by
        rw [flat_cons, ← inner.1, text, same]
        simp
      refine ⟨covers, ?_, inner.2⟩
      rw [← flat_cons, ← covers]
      exact leads
    · rintro ⟨covers, cut⟩
      cases lexemes with
      | nil => cases covers
      | cons lexeme others =>
        rw [Cut, ← flat_cons, ← covers, Leads, leads] at cut
        obtain ⟨same, further⟩ := cut
        cases same
        have again := ih.mpr ⟨drop_of_leads leads covers, further⟩
        rw [rested] at again
        cases again
        rfl

end Leading

section Behind

/-- Characters that names start with. -/
def startsName (c : Char) : Bool := (c == '_' || c.isAlpha || 128 ≤ c.toNat) && isNameChar c

/-- Texts that may stand behind a lexeme in place of each other: equal up to the start of a name,
or a line break in place of the end. -/
inductive Agree : List Char → List Char → Prop where
  /-- Both end. -/
  | nil : Agree [] []
  /-- One ends, and the other goes on with a line break. -/
  | ended (rest : List Char) : Agree [] ('\n' :: rest)
  /-- Both go on with one character. -/
  | same (c : Char) {left right : List Char} (agree : Agree left right) :
    Agree (c :: left) (c :: right)
  /-- Both go on with a name. -/
  | names {c d : Char} (first : startsName c = true) (second : startsName d = true)
    (left right : List Char) : Agree (c :: left) (d :: right)

namespace Agree

variable {left right : List Char}

/-- The same text may stand in front. -/
theorem behind (front : List Char) (agree : Agree left right) :
    Agree (front ++ left) (front ++ right) := by
  induction front with
  | nil => exact agree
  | cons c front ih => exact .same c ih

/-- A test that neither line breaks nor names pass is passed by both or by none. -/
theorem head_any {test : Char → Bool} (agree : Agree left right) (line : test '\n' = false)
    (name : ∀ c, startsName c = true → test c = false) :
    right.head?.any test = left.head?.any test := by
  cases agree with
  | nil => rfl
  | ended rest => exact line
  | same c => rfl
  | names first second =>
    rw [List.head?_cons, List.head?_cons, Option.any_some, Option.any_some, name _ first,
      name _ second]

/-- Where a test that names pass and line breaks fail is failed by one, the other fails it. -/
theorem stops {test : Char → Bool} (agree : Agree left right) (line : test '\n' = false)
    (name : ∀ c, startsName c = true → test c = true) (fails : left.head?.any test = false) :
    right.head?.any test = false := by
  cases agree with
  | nil => rfl
  | ended rest => exact line
  | same c => exact fails
  | names first second =>
    rw [List.head?_cons, Option.any_some, name _ first] at fails
    cases fails

/-- Both start with an operator, or none does. -/
theorem isPrefixOf (agree : Agree left right) {known : List Char}
    (marks : ∀ c ∈ known, c ≠ '\n' ∧ startsName c = false) :
    known.isPrefixOf right = known.isPrefixOf left := by
  induction known generalizing left right with
  | nil => simp
  | cons k known ih =>
    have first := marks k List.mem_cons_self
    have others : ∀ c ∈ known, c ≠ '\n' ∧ startsName c = false := fun c member =>
      marks c (List.mem_cons_of_mem k member)
    cases agree with
    | nil => rfl
    | ended rest =>
      have differs : (k == '\n') = false := beq_false_of_ne first.1
      rw [List.isPrefixOf_cons_cons, differs]
      rfl
    | same c agree => rw [List.isPrefixOf_cons_cons, List.isPrefixOf_cons_cons, ih agree others]
    | @names c d name name' left right =>
      have differs : (k == c) = false := by
        apply beq_false_of_ne
        rintro rfl
        rw [name] at first
        cases first.2
      have differs' : (k == d) = false := by
        apply beq_false_of_ne
        rintro rfl
        rw [name'] at first
        cases first.2
      rw [List.isPrefixOf_cons_cons, List.isPrefixOf_cons_cons, differs, differs']
      rfl

end Agree

/-- A run of characters ends where the next one fails the test. -/
theorem takeWhile_eq_left_iff {test : Char → Bool} {front rest : List Char} :
    (front ++ rest).takeWhile test = front ↔
      (∀ c ∈ front, test c = true) ∧ rest.head?.any test = false := by
  induction front with
  | nil =>
    cases rest with
    | nil => simp
    | cons c rest =>
      rw [List.nil_append, List.takeWhile_cons]
      cases found : test c <;> simp [found]
  | cons c front ih =>
    rw [List.cons_append, List.takeWhile_cons]
    cases found : test c with
    | false => simp [found]
    | true => simp [found, ih]

/-- A number goes on as long as it did, if what stands behind it starts the same way. -/
theorem numberTail_stable {hexadecimal : Bool} {last : Char} {front rest rest' : List Char}
    (whole : numberTail hexadecimal last (front ++ rest) = front)
    (heads : rest'.head? = rest.head? ∨ rest'.head? = some '\n') :
    numberTail hexadecimal last (front ++ rest') = front := by
  induction front generalizing last with
  | nil =>
    rw [List.nil_append] at whole ⊢
    cases rest' with
    | nil => rfl
    | cons c cs =>
      rcases heads with heads | heads
      · cases rest with
        | nil => cases heads
        | cons d ds =>
          cases heads
          simp only [numberTail] at whole ⊢
          split at whole
          · cases whole
          · rename_i fails
            rw [if_neg fails]
      · cases heads
        rfl
  | cons c front ih =>
    rw [List.cons_append] at whole ⊢
    simp only [numberTail] at whole ⊢
    split at whole
    · rename_i belongs
      rw [if_pos belongs, ih (List.cons.inj whole).2]
    · cases whole

/-- A number is as hexadecimal as it was, if what stands behind it starts the same way. -/
theorem isHexadecimal_stable {hexadecimal : Bool} {c : Char} {front rest rest' : List Char}
    (whole : numberTail hexadecimal c (front ++ rest) = front)
    (heads : rest'.head? = rest.head? ∨ rest'.head? = some '\n') :
    isHexadecimal c (front ++ rest') = isHexadecimal c (front ++ rest) := by
  unfold isHexadecimal
  rw [List.isPrefixOf_cons_cons, List.isPrefixOf_cons_cons]
  congr 1
  cases front with
  | cons d front => rfl
  | nil =>
    -- An `x` right behind the number would belong to it.
    have plain : ['x'].isPrefixOf rest = false := by
      cases rest with
      | nil => rfl
      | cons d ds =>
        rw [List.isPrefixOf_cons_cons]
        by_cases isX : ('x' == d) = true
        · rw [← eq_of_beq isX, List.nil_append, numberTail] at whole
          cases whole
        · rw [Bool.eq_false_iff.mpr isX]
          rfl
    rw [List.nil_append, List.nil_append, plain]
    cases rest' with
    | nil => rfl
    | cons d ds =>
      rcases heads with heads | heads
      · cases rest with
        | nil => cases heads
        | cons e es =>
          cases heads
          rw [List.isPrefixOf_cons_cons] at plain ⊢
          simpa using plain
      · cases heads
        rfl

/-- A text that leads with a lexeme, character by character. -/
theorem leads_iff {lexeme : Lexeme} {rest : List Char} :
    lexeme.Leads (lexeme.text ++ rest) ↔
      ∃ c inner, lexeme.text = c :: inner ∧ next c (inner ++ rest) = .ok lexeme := by
  constructor
  · intro leads
    cases covers : lexeme.text ++ rest with
    | nil =>
      rw [covers] at leads
      exact leads.elim
    | cons c cs =>
      rw [covers] at leads
      obtain ⟨inner, behind, text, rfl⟩ := next_prefix leads
      rw [text, List.cons_append] at covers
      rw [← List.append_cancel_left (List.cons.inj covers).2] at leads
      exact ⟨c, inner, text, leads⟩
  · rintro ⟨c, inner, text, leads⟩
    rw [text, List.cons_append]
    exact leads

/-- Names do not start with digits. -/
theorem isDigit_of_startsName (c : Char) (starts : startsName c = true) : c.isDigit = false := by
  have known := (Bool.and_eq_true_iff.mp starts).1
  rw [Bool.or_eq_true_iff, Bool.or_eq_true_iff, decide_eq_true_eq] at known
  rw [Bool.eq_false_iff]
  intro digit
  unfold Char.isDigit at digit
  rw [Bool.and_eq_true_iff, decide_eq_true_eq, decide_eq_true_eq, ge_iff_le,
    UInt32.le_iff_toNat_le, UInt32.le_iff_toNat_le] at digit
  have below : c.val.toNat ≤ 57 := digit.2
  rcases known with (underscore | letter) | foreign
  · rw [eq_of_beq underscore] at below
    exact absurd below (by decide)
  · unfold Char.isAlpha Char.isUpper Char.isLower at letter
    simp only [Bool.or_eq_true, Bool.and_eq_true, decide_eq_true_eq, ge_iff_le,
      UInt32.le_iff_toNat_le] at letter
    rcases letter with ⟨above, _⟩ | ⟨above, _⟩
    · have : 65 ≤ c.val.toNat := above
      omega
    · have : 97 ≤ c.val.toNat := above
      omega
  · have : 128 ≤ c.val.toNat := foreign
    omega

/-- A text starts with a character exactly when its first one is that. -/
theorem head?_beq_some (cs : List Char) (c : Char) :
    (cs.head? == some c) = cs.head?.any (· == c) := by
  cases cs <;> rfl

/-- Names do not start with other characters than they do. -/
theorem beq_of_startsName (other : Char) (differs : startsName other = false) (c : Char)
    (starts : startsName c = true) : (c == other) = false := by
  apply beq_false_of_ne
  rintro rfl
  rw [starts] at differs
  cases differs

/-- Names start with other characters than the rest. -/
theorem bne_of_startsName (other : Char) (differs : startsName other = false) (c : Char)
    (starts : startsName c = true) : (c != other) = true := by
  rw [bne, beq_of_startsName other differs c starts]
  rfl

/-- What starts a name belongs to it. -/
theorem isNameChar_of_startsName (c : Char) (starts : startsName c = true) : isNameChar c = true :=
  (Bool.and_eq_true_iff.mp starts).2

/-- The characters of operators are no line breaks and start no names. -/
theorem mark_chars : ∀ known ∈ longMarks ++ pairMarks, ∀ c ∈ known,
    c ≠ '\n' ∧ startsName c = false := by
  have checked : ((longMarks ++ pairMarks).all fun known =>
      known.all fun c => c != '\n' && !startsName c) = true := by decide
  intro known member c inside
  have both := List.all_eq_true.mp (List.all_eq_true.mp checked known member) c inside
  simpa using both

/-- The same operator stands in front of texts that agree. -/
theorem markText_agree {left right : List Char} (agree : Agree left right) (c : Char) :
    markText c right = markText c left := by
  unfold markText
  have same : ∀ known ∈ longMarks ++ pairMarks,
      known.isPrefixOf (c :: right) = known.isPrefixOf (c :: left) := fun known member =>
    (Agree.same c agree).isPrefixOf (mark_chars known member)
  rw [List.find?_congr same]

/-- A text that agrees with what stands behind a lexeme may stand there instead. Behind a number it
must also start the same way, because a number may end where a name starts. -/
theorem leads_agree {lexeme : Lexeme} {rest rest' : List Char}
    (leads : lexeme.Leads (lexeme.text ++ rest)) (agree : Agree rest rest')
    (number : ∀ text, lexeme = .number text →
      rest'.head? = rest.head? ∨ rest'.head? = some '\n') :
    lexeme.Leads (lexeme.text ++ rest') := by
  obtain ⟨c, inner, text, leads⟩ := leads_iff.mp leads
  refine leads_iff.mpr ⟨c, inner, text, ?_⟩
  have behind := agree.behind inner
  -- What the scanner asks of the second character has one answer in both texts.
  have slash : (inner ++ rest').head?.any (· == '/') = (inner ++ rest).head?.any (· == '/') :=
    behind.head_any rfl (beq_of_startsName '/' rfl)
  have star : (inner ++ rest').head?.any (· == '*') = (inner ++ rest).head?.any (· == '*') :=
    behind.head_any rfl (beq_of_startsName '*' rfl)
  have digit : (inner ++ rest').head?.any Char.isDigit = (inner ++ rest).head?.any Char.isDigit :=
    behind.head_any rfl isDigit_of_startsName
  unfold next startsNumber at leads ⊢
  simp only [head?_beq_some, slash, star, digit] at leads ⊢
  by_cases newline : (c == '\n') = true
  · rw [if_pos newline] at leads ⊢
    exact leads
  rw [if_neg newline] at leads ⊢
  by_cases space : isSpace c = true
  · rw [if_pos space] at leads ⊢
    exact leads
  rw [if_neg space] at leads ⊢
  by_cases line : (c == '/' && (inner ++ rest).head?.any (· == '/')) = true
  · rw [if_pos line] at leads ⊢
    cases leads
    cases inner with
    | nil => cases (List.cons.inj text).2
    | cons slash body =>
      have whole : (body ++ rest).takeWhile (· != '\n') = body :=
        (List.cons.inj (List.cons.inj text).2).2
      have ends := takeWhile_eq_left_iff.mp whole
      have stops := agree.stops (by decide) (bne_of_startsName '\n' rfl) ends.2
      rw [List.cons_append, List.cons_append, List.tail_cons, List.tail_cons, whole,
        takeWhile_eq_left_iff.mpr ⟨ends.1, stops⟩]
  rw [if_neg line] at leads ⊢
  by_cases delimited : (c == '/' && (inner ++ rest).head?.any (· == '*')) = true
  · rw [if_pos delimited] at leads ⊢
    split at leads
    · rename_i body found
      cases leads
      cases inner with
      | nil => cases (List.cons.inj text).2
      | cons star' following =>
        have shape : body ++ ['*', '/'] = following := (List.cons.inj (List.cons.inj text).2).2
        have again := commentBody?_append found rest'
        rw [List.cons_append, List.tail_cons, ← shape, List.append_assoc]
        rw [show commentBody? (body ++ (['*', '/'] ++ rest')) = some body from again]
    · cases leads
  rw [if_neg delimited] at leads ⊢
  by_cases letter : (c == '_' || c.isAlpha || decide (128 ≤ c.toNat)) = true
  · rw [if_pos letter] at leads ⊢
    by_cases name : isNameChar c = true
    · rw [if_pos name] at leads ⊢
      cases leads
      have whole : (inner ++ rest).takeWhile isNameChar = inner := (List.cons.inj text).2
      have ends := takeWhile_eq_left_iff.mp whole
      have stops := agree.stops (by decide) isNameChar_of_startsName ends.2
      rw [whole, takeWhile_eq_left_iff.mpr ⟨ends.1, stops⟩]
    · rw [if_neg name] at leads ⊢
      exact leads
  rw [if_neg letter] at leads ⊢
  by_cases starts : (c.isDigit || c == '.' && (inner ++ rest).head?.any Char.isDigit) = true
  · rw [if_pos starts] at leads ⊢
    cases leads
    have whole : numberTail (isHexadecimal c (inner ++ rest)) c (inner ++ rest) = inner :=
      (List.cons.inj text).2
    have heads := number _ rfl
    rw [isHexadecimal_stable whole heads, whole, numberTail_stable whole heads]
  rw [if_neg starts] at leads ⊢
  by_cases quote : (c == '"' || c == '\x27') = true
  · rw [if_pos quote] at leads ⊢
    split at leads
    · rename_i body found
      cases leads
      have shape : body = inner := (List.cons.inj text).2
      rw [← shape, quotedBody?_append found rest']
    · cases leads
  rw [if_neg quote] at leads ⊢
  by_cases rawQuote : (c == '\x60') = true
  · rw [if_pos rawQuote] at leads ⊢
    split at leads
    · rename_i body found
      cases leads
      have shape : body = inner := (List.cons.inj text).2
      rw [← shape, rawBody?_append found rest']
    · cases leads
  rw [if_neg rawQuote] at leads ⊢
  by_cases semicolon : (c == ';') = true
  · rw [if_pos semicolon] at leads ⊢
    exact leads
  rw [if_neg semicolon] at leads ⊢
  rw [markText_agree behind]
  exact leads

end Behind

section Words

/-- The text of a name or keyword. -/
def IsWord : List Char → Prop
  | [] => False
  | c :: cs => startsName c = true ∧ ∀ d ∈ cs, isNameChar d = true

/-- Only what starts a name leads with a word. -/
theorem startsName_of_word {c : Char} {cs text : List Char} (leads : next c cs = .ok (.word text)) :
    startsName c = true := by
  by_contra other
  have foreign (letter : (c == '_' || c.isAlpha || 128 ≤ c.toNat) = true) :
      ¬ isNameChar c = true := fun name =>
    other (Bool.and_eq_true_iff.mpr ⟨letter, name⟩)
  unfold next at leads
  split at leads
  · cases leads
  split at leads
  · cases leads
  split at leads
  · cases leads
  split at leads
  · split at leads <;> cases leads
  split at leads
  · rename_i letter
    rw [if_neg (foreign letter)] at leads
    cases leads
  split at leads
  · cases leads
  split at leads
  · split at leads <;> cases leads
  split at leads
  · split at leads <;> cases leads
  split at leads
  · cases leads
  · cases leads

/-- What starts a name leads with a word. -/
theorem next_of_startsName {c : Char} (starts : startsName c = true) (cs : List Char) :
    next c cs = .ok (.word (c :: cs.takeWhile isNameChar)) := by
  have space : isSpace c = false := by
    unfold isSpace
    rw [beq_of_startsName ' ' rfl c starts, beq_of_startsName '\t' rfl c starts,
      beq_of_startsName '\x0c' rfl c starts, beq_of_startsName '\r' rfl c starts]
    rfl
  obtain ⟨letter, name⟩ := Bool.and_eq_true_iff.mp starts
  unfold next
  rw [beq_of_startsName '\n' rfl c starts, space,
    beq_of_startsName '/' rfl c starts, if_pos letter, if_pos name]
  rfl

/-- A text leads with a word exactly when it starts with the characters of one and goes on with
another character. -/
theorem leads_word_iff {text rest : List Char} :
    (Lexeme.word text).Leads (text ++ rest) ↔ IsWord text ∧ rest.head?.any isNameChar = false := by
  have leads_cons (c : Char) (cs : List Char) (starts : startsName c = true) :
      next c (cs ++ rest) = .ok (.word (c :: cs)) ↔
        (∀ d ∈ cs, isNameChar d = true) ∧ rest.head?.any isNameChar = false := by
    rw [next_of_startsName starts, ← takeWhile_eq_left_iff]
    simp
  constructor
  · intro leads
    obtain ⟨c, inner, rfl, leads⟩ := leads_iff.mp leads
    have starts := startsName_of_word leads
    obtain ⟨inside, stops⟩ := (leads_cons c inner starts).mp leads
    exact ⟨⟨starts, inside⟩, stops⟩
  · rintro ⟨isWord, stops⟩
    cases text with
    | nil => exact isWord.elim
    | cons c cs =>
      exact leads_iff.mpr ⟨c, cs, rfl, (leads_cons c cs isWord.1).mpr ⟨isWord.2, stops⟩⟩

/-- A name may start with any letter. -/
theorem startsName_of_isLetter {c : Char} (letter : isLetter c = true) : startsName c = true := by
  have name : isNameChar c = true := by
    unfold isNameChar
    rw [letter, Bool.or_true, Bool.true_or]
  refine Bool.and_eq_true_iff.mpr ⟨?_, name⟩
  unfold isLetter at letter
  split at letter
  · rw [letter, Bool.or_true, Bool.true_or]
  · rename_i foreign
    have above : 128 ≤ c.toNat := by
      rw [UInt32.lt_iff_toNat_lt] at foreign
      exact Nat.not_lt.mp foreign
    rw [decide_eq_true above, Bool.or_true]

/-- A name that can be declared is a word. -/
theorem isWord_of_name {name : String} (valid : nameFlaw? name = none) :
    IsWord name.toList ∧ isKeyword name = false := by
  unfold nameFlaw? at valid
  cases chars : name.toList with
  | nil =>
    rw [chars] at valid
    cases valid
  | cons c cs =>
    simp only [chars] at valid
    split at valid
    · cases valid
    rename_i start
    split at valid
    · cases valid
    rename_i others
    split at valid
    · cases valid
    split at valid
    · cases valid
    rename_i keyword
    refine ⟨⟨?_, ?_⟩, Bool.eq_false_iff.mpr keyword⟩
    · by_cases underscore : c = '_'
      · rw [underscore]
        rfl
      · have letter : isLetter c = true := by
          rw [Bool.and_eq_true_iff, not_and, Bool.not_eq_true_eq_eq_false, bne_iff_ne, not_ne_iff]
            at start
          by_contra other
          exact underscore (start (Bool.eq_false_iff.mpr other))
        exact startsName_of_isLetter letter
    · intro d member
      simpa using List.find?_eq_none.mp others d member

end Words

section Lines

variable {lexemes : List Lexeme}

/-- A text is cut in one way: what leads it is its first lexeme. -/
theorem cut_eq_cons (lexeme : Lexeme) {rest : List Char} (cut : Cut lexemes)
    (covers : flat lexemes = lexeme.text ++ rest) (leads : lexeme.Leads (lexeme.text ++ rest)) :
    ∃ others, lexemes = lexeme :: others ∧ flat others = rest ∧ Cut others := by
  obtain ⟨c, inner, text, next⟩ := leads_iff.mp leads
  cases lexemes with
  | nil =>
    rw [text] at covers
    cases covers
  | cons first others =>
    obtain ⟨c', inner', text', next'⟩ := leads_iff.mp cut.1
    rw [flat_cons, text, text', List.cons_append, List.cons_append] at covers
    obtain ⟨rfl, same⟩ := List.cons_eq_cons.mp covers
    rw [same, next] at next'
    obtain rfl := Except.ok.inj next'
    rw [text] at text'
    obtain ⟨-, rfl⟩ := List.cons_eq_cons.mp text'
    exact ⟨others, rfl, List.append_cancel_left same, cut.2⟩

/-- A text agrees with itself and more behind a line break. -/
theorem Agree.extended (more : List Char) : ∀ text : List Char, Agree text (text ++ '\n' :: more)
  | [] => .ended more
  | c :: cs => .same c (extended more cs)

/-- A line break is led with whatever follows. -/
theorem cut_newline {rest : List Lexeme} (cut : Cut rest) : Cut (.newline :: rest) :=
  ⟨rfl, cut⟩

/-- Lexemes stay what they are when a line break and more follow. -/
theorem cut_append_newline {front back : List Lexeme} (first : Cut front) (second : Cut back) :
    Cut (front ++ .newline :: back) := by
  induction front with
  | nil => exact cut_newline second
  | cons lexeme rest ih =>
    rw [List.cons_append, Cut, flat_append]
    refine ⟨?_, ih first.2⟩
    refine leads_agree first.1 (Agree.extended _ _) fun text isNumber => ?_
    cases covers : flat rest with
    | nil => exact Or.inr rfl
    | cons c cs => exact Or.inl rfl

end Lines

end Lexeme

end GoRefactor
