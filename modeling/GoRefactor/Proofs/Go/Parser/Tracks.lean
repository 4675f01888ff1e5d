import GoRefactor.Proofs.Go.Parser.Mirror
import GoRefactor.Proofs.Go.Parser.Steps
import Mathlib.Data.Option.Basic

/-!
# Computations that go together

From linked places two computations that track each other give related values and stop at linked
places, as long as the first one takes no more tokens than it may. Here are the steps that the
parser's functions are made of, and the ways in which they are put together.
-/

namespace GoRefactor

/-- A computation never gives tokens back. -/
theorem Parse.taken_le {α : Type} (parse : Parse α) (place : Cursor) :
    place.taken ≤ (parse.run place).2.taken := by
  obtain ⟨count, stops⟩ := parse.advances place
  rw [stops]
  exact Cursor.taken_le_advanceBy count place

namespace Mirror

variable {α β γ δ : Type} {m : Mirror}

/-- From linked places the computations give related values and stop at linked places. -/
def Tracks (m : Mirror) (relation : α → β → Prop) (first : Parse α) (second : Parse β) : Prop :=
  ∀ place image : Cursor, m.Linked place image → (first.run place).2.taken ≤ m.limit →
    relation (first.run place).1 (second.run image).1 ∧
      m.Linked (first.run place).2 (second.run image).2

/-- A computation gives the same value at linked places. -/
def Same (m : Mirror) (parse : Parse α) : Prop := m.Tracks Eq parse parse

namespace Tracks

/-- A value takes no tokens. -/
theorem pure {relation : α → β → Prop} {value : α} {image : β} (related : relation value image) :
    m.Tracks relation (Pure.pure value : Parse α) (Pure.pure image : Parse β) :=
  fun _ _ linked _ => ⟨related, linked⟩

/-- Computations that track each other may be followed by others that do so for related values. -/
theorem bind {before : α → β → Prop} {after : γ → δ → Prop} {first : Parse α} {second : Parse β}
    {following : α → Parse γ} {following' : β → Parse δ} (tracks : m.Tracks before first second)
    (continues : ∀ value image, before value image →
      m.Tracks after (following value) (following' image)) :
    m.Tracks after (first >>= following) (second >>= following') := by
  intro place image linked inside
  have halfway := Nat.le_trans ((following (first.run place).1).taken_le (first.run place).2) inside
  obtain ⟨related, linked'⟩ := tracks place image linked halfway
  exact continues _ _ related _ _ linked' inside

/-- A value that is the same may be followed by what tracks for each value. -/
theorem bind_same {after : γ → δ → Prop} {parse : Parse α} {following : α → Parse γ}
    {following' : α → Parse δ} (same : m.Same parse)
    (continues : ∀ value, m.Tracks after (following value) (following' value)) :
    m.Tracks after (parse >>= following) (parse >>= following') :=
  bind same fun value _ equal => equal ▸ continues value

/-- Values may be changed together. -/
theorem map {before : α → β → Prop} {after : γ → δ → Prop} {first : Parse α} {second : Parse β}
    {change : α → γ} {change' : β → δ} (tracks : m.Tracks before first second)
    (changes : ∀ value image, before value image → after (change value) (change' image)) :
    m.Tracks after (change <$> first) (change' <$> second) :=
  bind tracks fun value image related => pure (changes value image related)

/-- Both go the same way. -/
theorem ite {relation : α → β → Prop} {test test' : Prop} [Decidable test] [Decidable test']
    {first other : Parse α} {second other' : Parse β} (same : test' ↔ test)
    (holds : m.Tracks relation first second) (fails : m.Tracks relation other other') :
    m.Tracks relation (if test then first else other) (if test' then second else other') := by
  by_cases passed : test
  · rw [if_pos passed, if_pos (same.mpr passed)]
    exact holds
  · rw [if_neg passed, if_neg (mt same.mp passed)]
    exact fails

/-- A step tracks another if it gives a related value and takes as many tokens. -/
theorem step {relation : α → β → Prop} {act : Cursor → α × Nat} {act' : Cursor → β × Nat}
    (follows : ∀ {place image : Cursor}, m.Linked place image →
      (place.advanceBy (act place).2).taken ≤ m.limit →
      relation (act place).1 (act' image).1 ∧ (act' image).2 = (act place).2) :
    m.Tracks relation (Parse.step act) (Parse.step act') := by
  intro place image linked inside
  obtain ⟨related, same⟩ := follows linked inside
  refine ⟨related, ?_⟩
  change m.Linked (place.advanceBy (act place).2) (image.advanceBy (act' image).2)
  rw [same]
  exact linked.advanceBy inside

/-- A query tracks another if the answers are related. -/
theorem query {relation : α → β → Prop} {answer : Cursor → α} {answer' : Cursor → β}
    (follows : ∀ {place image : Cursor}, m.Linked place image → place.taken ≤ m.limit →
      relation (answer place) (answer' image)) :
    m.Tracks relation (Parse.query answer) (Parse.query answer') :=
  step fun linked inside => ⟨follows linked inside, rfl⟩

end Tracks

section Queries

/-- What the next token tells the parser is the same at linked places. -/
theorem same_next (answer : Token → α)
    (alike : ∀ {token image : Token}, token.Alike image → answer image = answer token) :
    m.Same (Parse.query fun place => answer (place.peekAt 0)) :=
  Tracks.query fun linked below => (alike (linked.peekAt (linked.inside below)).toAlike).symm

/-- The same keyword or mark comes next. -/
theorem same_is (text : String) : m.Same (Parse.is text) :=
  same_next (·.is text) fun alike => alike.is_eq text

/-- The same keyword or mark comes next. -/
theorem same_isAny (texts : List String) : m.Same (Parse.isAny texts) :=
  same_next (fun token => texts.any token.is) fun alike => by
    rw [show _ = _ from funext alike.is_eq]

/-- A token of the same kind comes next. -/
theorem same_isKind (kind : TokenKind) : m.Same (Parse.isKind kind) :=
  same_next (·.kind == kind) fun alike => by rw [alike.kind]

/-- Both streams end, or none does. -/
theorem same_atEnd : m.Same Parse.atEnd := same_isKind .finish

/-- A type can start in both streams, or in none. -/
theorem same_startsType : m.Same Parse.startsType :=
  same_next (·.startsType) fun alike => alike.startsType_eq

/-- The same unary operator comes next. -/
theorem same_unaryOp? : m.Same Parse.unaryOp? :=
  same_next (·.unaryOp?) fun alike => alike.unaryOp?_eq

/-- A statement ends in both streams, or in none. -/
theorem same_endsStatement : m.Same Parse.endsStatement :=
  same_next (·.endsStatement) fun alike => alike.endsStatement_eq

/-- The place of an operand ends in both streams, or in none. -/
theorem same_endsOperand : m.Same Parse.endsOperand :=
  same_next (·.endsOperand) fun alike => alike.endsOperand_eq

/-- The place of a type ends in both streams, or in none. -/
theorem same_endsType : m.Same Parse.endsType :=
  same_next (·.endsType) fun alike => alike.endsType_eq

/-- What the next two tokens tell is the same, if the second counts only behind a token that is no
terminator. -/
theorem same_nextTwo (answer : Token → Token → α)
    (alike : ∀ {first first' second second' : Token}, first.Alike first' →
      (first.isTerminator = false → second.Alike second') →
      answer first' second' = answer first second) :
    m.Same (Parse.query fun place => answer (place.peekAt 0) (place.peekAt 1)) :=
  Tracks.query fun linked below =>
    (alike (linked.peekAt (linked.inside below)).toAlike fun goesOn =>
      (linked.peekAt (linked.inside_behind (linked.inside below) goesOn)).toAlike).symm

/-- What the next three tokens tell is the same, if each counts only behind one that is no
terminator. -/
theorem same_nextThree {answer : Cursor → α}
    (alike : ∀ {place image : Cursor}, (place.peekAt 0).Alike (image.peekAt 0) →
      ((place.peekAt 0).isTerminator = false → (place.peekAt 1).Alike (image.peekAt 1)) →
      ((place.peekAt 0).isTerminator = false → (place.peekAt 1).isTerminator = false →
        (place.peekAt 2).Alike (image.peekAt 2)) →
      answer image = answer place) :
    m.Same (Parse.query answer) :=
  Tracks.query fun linked below =>
    (alike (linked.peekAt (linked.inside below)).toAlike
      (fun goesOn => (linked.peekAt (linked.inside_behind (linked.inside below) goesOn)).toAlike)
      fun goesOn further => (linked.peekAt (linked.inside_behind
        (linked.inside_behind (linked.inside below) goesOn) further)).toAlike).symm

/-- A keyword or mark is no terminator. -/
theorem isTerminator_of_is {token : Token} {text : String} (is : token.is text = true) :
    token.isTerminator = false := by
  unfold Token.is at is
  unfold Token.isTerminator
  cases kind : token.kind <;> simp_all

/-- A name is no terminator. -/
theorem isTerminator_of_name {token : Token} (named : token.kind = .identifier) :
    token.isTerminator = false := by
  unfold Token.isTerminator
  rw [named]
  rfl

/-- A selector follows in both streams, or in none. -/
theorem same_selectorFollows : m.Same Parse.selectorFollows :=
  same_nextTwo (fun first second => first.is "." && second.kind == .identifier) <| by
    intro first first' second second' alike following
    rw [alike.is_eq]
    cases dot : first.is "." with
    | false => rfl
    | true => rw [(following (isTerminator_of_is dot)).kind]

/-- Type arguments follow in both streams, or in none. -/
theorem same_typeArgsFollow : m.Same Parse.typeArgsFollow :=
  same_nextTwo (fun first second => first.is "[" && !second.is "]") <| by
    intro first first' second second' alike following
    rw [alike.is_eq]
    cases bracket : first.is "[" with
    | false => rfl
    | true => rw [(following (isTerminator_of_is bracket)).is_eq]

/-- A name before some mark follows in both streams, or in none. -/
theorem same_nameBefore (mark : String) :
    m.Same (Parse.query fun place =>
      (place.peekAt 0).kind == .identifier && (place.peekAt 1).is mark) :=
  same_nextTwo (fun first second => first.kind == .identifier && second.is mark) <| by
    intro first first' second second' alike following
    rw [alike.kind]
    cases named : first.kind == .identifier with
    | false => rfl
    | true => rw [(following (isTerminator_of_name (eq_of_beq named))).is_eq]

/-- A method of an interface follows in both streams, or in none. -/
theorem same_methodFollows : m.Same Parse.methodFollows := same_nameBefore "("

/-- A label follows in both streams, or in none. -/
theorem same_labelFollows : m.Same Parse.labelFollows := same_nameBefore ":"

/-- A group follows in both streams, or in none. -/
theorem same_groupFollows : m.Same Parse.groupFollows :=
  same_nextTwo (fun first second => !first.isTerminator && second.is "(") <| by
    intro first first' second second' alike following
    rw [alike.isTerminator_eq]
    cases ends : first.isTerminator with
    | true => rfl
    | false => rw [(following ends).is_eq]

/-- The next line of both structs starts with a name, or that of none. -/
theorem same_fieldIsNamed : m.Same Parse.fieldIsNamed :=
  same_nextTwo (fun first second => first.kind == .identifier &&
      !(second.is "." || second.isTerminator || second.kind == .literal || second.is "\x7d")) <| by
    intro first first' second second' alike following
    rw [alike.kind]
    cases named : first.kind == .identifier with
    | false => rfl
    | true =>
      have next := following (isTerminator_of_name (eq_of_beq named))
      rw [next.is_eq, next.isTerminator_eq, next.kind, next.is_eq]

/-- Both imports have an explicit name, or none does. -/
theorem same_aliasFollows : m.Same Parse.aliasFollows :=
  same_next (fun token => token.kind == .identifier || token.is ".") fun alike => by
    rw [alike.kind, alike.is_eq]

/-- Type parameters follow in both streams, or in none. -/
theorem same_hasTypeParams : m.Same Parse.hasTypeParams :=
  same_nextThree <| by
    intro place image alike following further
    rw [alike.is_eq]
    cases bracket : (place.peekAt 0).is "[" with
    | false => rfl
    | true =>
      have goesOn := isTerminator_of_is bracket
      rw [(following goesOn).kind]
      cases named : (place.peekAt 1).kind == .identifier with
      | false => rfl
      | true => rw [(further goesOn (isTerminator_of_name (eq_of_beq named))).is_eq]

/-- The next parameter of both lists is named, or that of none. -/
theorem same_paramIsNamed : m.Same Parse.paramIsNamed :=
  same_nextThree <| by
    intro place image alike following further
    dsimp only
    rw [alike.kind]
    by_cases named : (place.peekAt 0).kind = .identifier
    · have goesOn := isTerminator_of_name named
      have next := following goesOn
      rw [next.kind]
      cases kind : (place.peekAt 1).kind with
      | mark =>
        have last := further goesOn (by unfold Token.isTerminator; rw [kind]; rfl)
        rw [next.text (Or.inr kind), last.is_eq, last.kind]
      | keyword => rw [next.text (Or.inl kind)]
      | _ => rfl
    · have other : ((place.peekAt 0).kind != .identifier) = true := bne_iff_ne.mpr named
      simp only [other, if_true]

/-- What starts here has the same doc comment in both streams. -/
theorem same_docHere : m.Same Parse.docHere :=
  Tracks.query fun linked below => by
    rw [linked.notes, linked.imageNotes]
    exact (linked.peekAt (linked.inside below)).doc.symm

/-- The next tokens stand where the visitor says. -/
theorem tracks_nextSpan :
    m.Tracks (fun span span' => m.visitor.span span = .ok span') Parse.nextSpan Parse.nextSpan :=
  Tracks.query fun linked below => (linked.peekAt (linked.inside below)).span_eq

/-- An offset and where it goes. -/
def Moves (m : Mirror) (offset image : Nat) : Prop := m.Placed offset ∧ image = m.move offset

/-- The next tokens start where the mirror says. -/
theorem tracks_nextStart : m.Tracks m.Moves Parse.nextStart Parse.nextStart :=
  Tracks.query fun linked below => by
    have twin := linked.peekAt (linked.inside below)
    exact ⟨twin.start, by rw [twin.span]⟩

/-- The second scan has taken more tokens. -/
theorem tracks_taken :
    m.Tracks (fun count count' => count' = count + m.lead) Parse.taken Parse.taken :=
  Tracks.query fun linked _ => linked.taken

/-- What follows the number of tokens taken tracks if it does so for each number. -/
theorem Tracks.bind_taken {relation : α → β → Prop} {following : Nat → Parse α}
    {following' : Nat → Parse β}
    (continues : ∀ count, m.Tracks relation (following count) (following' (count + m.lead))) :
    m.Tracks relation (Parse.taken >>= following) (Parse.taken >>= following') :=
  Tracks.bind tracks_taken fun count _ more => more ▸ continues count

/-- Spans up to the last token stand where the visitor says. -/
theorem tracks_spanFrom {start start' : Nat} (moves : m.Moves start start') :
    m.Tracks (fun span span' => m.visitor.span span = .ok span') (Parse.spanFrom start)
      (Parse.spanFrom start') :=
  Tracks.query fun linked _ => by
    rw [moves.2]
    exact linked.lastEnd moves.1

end Queries

section Steps

/-- Both scans take a token, which the visitor names. -/
theorem tracks_take : m.Tracks m.TokenImage Parse.take Parse.take :=
  Tracks.step fun {place image} linked inside => by
    have below := Nat.le_trans (Cursor.taken_le_advanceBy 1 place) inside
    have twin := linked.peekAt (linked.inside below)
    refine ⟨⟨twin, ?_⟩, rfl⟩
    intro named
    obtain ⟨twins, ahead, related⟩ := linked.twins
    cases next : place.ahead with
    | nil =>
      have finishes : (place.peekAt 0).kind = .finish := by
        unfold Cursor.peekAt
        rw [next]
        exact linked.finishes
      unfold Mirror.Names Token.is at named
      rw [finishes] at named
      exact absurd named (by simp)
    | cons token rest =>
      have counted : place.taken + 1 ≤ m.limit := by
        change place.advance.taken ≤ m.limit at inside
        rw [Cursor.advance_of_cons next] at inside
        exact inside
      rw [next] at related
      obtain _ | @⟨_, token', _, rest', first, tail⟩ := related
      have next' : image.ahead = token' :: (rest' ++ m.more) := ahead
      refine linked.named (by omega : place.taken + 0 < m.limit) ?_ ?_ named
      · unfold Cursor.peekAt
        rw [next]
        rfl
      · unfold Cursor.peekAt
        rw [next']
        rfl

/-- Where a query tells something of the next token, that is known of the token taken there. -/
theorem Tracks.takeWhen {relation : α → β → Prop} {answer : Cursor → Bool}
    {property : Token → Prop} {following : Token → Parse α} {following' : Token → Parse β}
    {other : Parse α} {other' : Parse β} (same : m.Same (Parse.query answer))
    (tells : ∀ place, answer place = true → property (place.peekAt 0))
    (continues : ∀ token image, m.TokenImage token image → property token →
      m.Tracks relation (following token) (following' image))
    (otherwise : m.Tracks relation other other') :
    m.Tracks relation
      (Parse.query answer >>= fun yes =>
        if yes = true then Parse.take >>= following else other)
      (Parse.query answer >>= fun yes =>
        if yes = true then Parse.take >>= following' else other') := by
  intro place image linked inside
  have below := Nat.le_trans (Parse.taken_le _ place) inside
  have agree : answer image = answer place := (same place image linked below).1.symm
  have ask {γ : Type} (choose : Bool → Parse γ) (cursor : Cursor) :
      (Parse.query answer >>= choose).run cursor = (choose (answer cursor)).run cursor := rfl
  rw [ask] at inside
  rw [ask, ask, agree]
  cases yes : answer place with
  | false =>
    rw [yes] at inside
    exact otherwise place image linked inside
  | true =>
    rw [yes] at inside
    have halfway := Nat.le_trans ((following _).taken_le _) inside
    obtain ⟨taken, linked'⟩ := tracks_take place image linked halfway
    exact continues _ _ taken (tells place yes) _ _ linked' inside

/-- Where a query tells something of the next token, that is known of the token taken there. -/
theorem Tracks.takeIf {answer : Cursor → Bool} {property : Token → Prop}
    (same : m.Same (Parse.query answer))
    (tells : ∀ place, answer place = true → property (place.peekAt 0)) :
    m.Tracks (Option.Rel fun token image => m.TokenImage token image ∧ property token)
      (Parse.takeIf (Parse.query answer)) (Parse.takeIf (Parse.query answer)) :=
  Tracks.takeWhen same tells
    (fun _ _ taken told => Tracks.pure (Option.Rel.some ⟨taken, told⟩))
    (Tracks.pure Option.Rel.none)

/-- Both scans take the keyword or mark, or none does. -/
theorem same_eat (text : String) : m.Same (Parse.eat text) :=
  Tracks.bind_same (same_is text) fun _ =>
    Tracks.ite Iff.rfl (Tracks.bind tracks_take fun _ _ _ => Tracks.pure rfl) (Tracks.pure rfl)

/-- Both scans pass over the keyword or mark, or none does. -/
theorem same_skip (text : String) : m.Same (Parse.skip text) :=
  Tracks.bind_same (same_eat text) fun _ => Tracks.pure rfl

/-- Passing over as many tokens is the same if the number depends on what the parser can tell. -/
theorem same_pass (count : List Token → Nat) (bounded : ∀ tokens, count tokens ≤ tokens.length)
    (settled : ∀ tokens more, count tokens < tokens.length →
      count (tokens ++ more) = count tokens)
    (alike : ∀ {left right}, List.Forall₂ Token.Alike left right → count right = count left) :
    m.Same (Parse.pass fun place => count place.ahead) :=
  Tracks.step fun linked inside => ⟨rfl, linked.count_eq count bounded settled alike inside⟩

/-- Both scans pass over the same terminators. -/
theorem same_skipTerminators : m.Same Parse.skipTerminators :=
  same_pass (fun tokens => (tokens.takeWhile Token.isTerminator).length)
    (fun tokens => (List.takeWhile_prefix _).length_le)
    (fun tokens more ends => by rw [takeWhile_append_of_lt _ tokens more ends]) terminators_alike

/-- Both scans pass over the same group. -/
theorem same_skipGroup : m.Same Parse.skipGroup :=
  same_pass (groupLength 0) (groupLength_le 0) (groupLength_append 0) fun alike =>
    groupLength_alike alike 0

/-- Both scans pass over the same statement. -/
theorem same_skipStatement : m.Same Parse.skipStatement :=
  same_pass (statementLength 0) (statementLength_le 0) (statementLength_append 0) fun alike =>
    statementLength_alike alike 0

/-- Both scans move on, or none does. -/
theorem same_keepMoving (before : Nat) :
    m.Tracks Eq (Parse.keepMoving before) (Parse.keepMoving (before + m.lead)) :=
  Tracks.step fun {place image} linked _ => by
    refine ⟨rfl, ?_⟩
    simp only [linked.taken, beq_iff_eq, Nat.add_right_cancel_iff]

/-- What follows moving on tracks if the rest does. -/
theorem Tracks.bind_keepMoving {relation : α → β → Prop} {before : Nat}
    {following : Unit → Parse α} {following' : Unit → Parse β}
    (continues : m.Tracks relation (following ()) (following' ())) :
    m.Tracks relation (Parse.keepMoving before >>= following)
      (Parse.keepMoving (before + m.lead) >>= following') :=
  Tracks.bind (same_keepMoving before) fun _ _ _ => continues

/-- Names that stand together and may be taken are images. -/
theorem Linked.nameImages {place image : Cursor} (linked : m.Linked place image) {count : Nat}
    (inside : place.taken + count ≤ m.limit) {tokens twins : List Token}
    (together : List.Forall₂ (StandTogether count place.ahead image.ahead) tokens twins) :
    List.Forall₂ m.NameImage tokens twins := by
  refine together.imp ?_
  rintro token twin ⟨named, stand, below, stands, stands'⟩
  have within : stand < place.ahead.length := (List.getElem?_eq_some_iff.mp stands).1
  have pair := linked.peekAt (Or.inr within)
  have first : place.peekAt stand = token := by
    unfold Cursor.peekAt
    rw [stands]
    rfl
  have second : image.peekAt stand = twin := by
    unfold Cursor.peekAt
    rw [stands']
    rfl
  rw [first, second] at pair
  exact TokenImage.nameImage ⟨pair, linked.named (by omega) stands stands'⟩ named

/-- Both scans take names from the same places, if what is taken depends on what the parser can
tell. -/
theorem tracks_nameStep (read : List Token → List Token × Nat)
    (bounded : ∀ tokens, (read tokens).2 ≤ tokens.length)
    (settled : ∀ tokens more, (read tokens).2 < tokens.length →
      read (tokens ++ more) = read tokens)
    (alike : ∀ {left right}, List.Forall₂ Token.Alike left right →
      List.Forall₂ (StandTogether (read left).2 left right) (read left).1 (read right).1 ∧
        (read right).2 = (read left).2) :
    m.Tracks (List.Forall₂ m.NameImage) (Parse.step fun place => read place.ahead)
      (Parse.step fun place => read place.ahead) :=
  Tracks.step fun {place image} linked inside => by
    obtain ⟨twins, ahead, related⟩ := linked.alike
    obtain ⟨together, counts⟩ := alike related
    have room : place.taken + (read place.ahead).2 ≤ m.limit := by
      rw [Cursor.taken_advanceBy (bounded place.ahead)] at inside
      exact inside
    have same : read image.ahead = read twins := by
      rw [ahead]
      rcases linked.room with closed | ⟨short, _⟩
      · rw [closed, List.append_nil]
      · refine settled twins m.more ?_
        rw [counts, ← related.length_eq]
        omega
    rw [same]
    refine ⟨linked.nameImages room (together.imp ?_), counts⟩
    rintro token twin ⟨named, stand, below, stands, stands'⟩
    refine ⟨named, stand, below, stands, ?_⟩
    rw [ahead, List.getElem?_append_left (List.getElem?_eq_some_iff.mp stands').1]
    exact stands'

/-- Both scans take names from the same places. -/
theorem tracks_names : m.Tracks (List.Forall₂ m.NameImage) Parse.names Parse.names :=
  tracks_nameStep nameRun nameRun_le nameRun_append nameRun_alike

/-- Both scans take names behind commas from the same places. -/
theorem tracks_moreNames : m.Tracks (List.Forall₂ m.NameImage) Parse.moreNames Parse.moreNames :=
  tracks_nameStep furtherNames furtherNames_le furtherNames_append furtherNames_alike

end Steps

section Beside

/-- What does not depend on names is the same at linked places. -/
theorem same_of_plain {parse : Parse α} (plain : Parse.Plain parse) : m.Same parse := by
  cases plain with
  | is text => exact same_is text
  | isAny texts => exact same_isAny texts
  | isKind kind => exact same_isKind kind
  | startsType => exact same_startsType
  | unaryOp? => exact same_unaryOp?
  | endsStatement => exact same_endsStatement
  | endsOperand => exact same_endsOperand
  | endsType => exact same_endsType
  | paramIsNamed => exact same_paramIsNamed
  | hasTypeParams => exact same_hasTypeParams
  | selectorFollows => exact same_selectorFollows
  | typeArgsFollow => exact same_typeArgsFollow
  | methodFollows => exact same_methodFollows
  | labelFollows => exact same_labelFollows
  | fieldIsNamed => exact same_fieldIsNamed
  | docHere => exact same_docHere
  | skipTerminators => exact same_skipTerminators
  | skipGroup => exact same_skipGroup

/-- From linked places of which something is known, the computations give related values and stop
at linked places. Offsets bound the values as far as the relation asks for it. -/
def Beside (m : Mirror) (holds : Cursor → Prop) (place : Nat) (post : Nat → α → β → Prop)
    (first : Parse α) (second : Parse β) : Prop :=
  ∀ cursor image : Cursor, m.Linked cursor image → holds cursor →
    (first.run cursor).2.taken ≤ m.limit →
      (∃ stop, place ≤ stop ∧ post stop (first.run cursor).1 (second.run image).1) ∧
        m.Linked (first.run cursor).2 (second.run image).2

variable {holds after : Cursor → Prop} {place : Nat} {post : Nat → γ → δ → Prop}
  {relation : α → β → Prop} {first : Parse α} {second : Parse β}

/-- Computations that track each other do so from places of which something is known. -/
theorem Tracks.beside (tracks : m.Tracks relation first second) :
    m.Beside holds place (fun _ => relation) first second := by
  intro cursor image linked _ inside
  obtain ⟨related, linked'⟩ := tracks cursor image linked inside
  exact ⟨⟨place, Nat.le_refl place, related⟩, linked'⟩

/-- Computations that go together from any place track each other. -/
theorem Beside.tracks (beside : m.Beside holds place (fun _ => relation) first second)
    (anywhere : ∀ cursor, holds cursor) : m.Tracks relation first second := by
  intro cursor image linked inside
  obtain ⟨⟨_, _, related⟩, linked'⟩ := beside cursor image linked (anywhere cursor) inside
  exact ⟨related, linked'⟩

/-- What follows computations that track each other is read side by side for related values. -/
theorem Beside.bind {following : α → Parse γ} {following' : β → Parse δ}
    (after : α → Cursor → Prop) (tracks : m.Tracks relation first second)
    (moves : ∀ {cursor}, holds cursor → after (first.run cursor).1 (first.run cursor).2)
    (behind : ∀ {value image}, relation value image →
      m.Beside (after value) place post (following value) (following' image)) :
    m.Beside holds place post (first >>= following) (second >>= following') := by
  intro cursor image linked here inside
  have halfway :=
    Nat.le_trans ((following (first.run cursor).1).taken_le (first.run cursor).2) inside
  obtain ⟨related, linked'⟩ := tracks cursor image linked halfway
  exact behind related _ _ linked' (moves here) inside

/-- What follows a name that is taken is read side by side for each name and its image. -/
theorem bindName {following : Token → Parse γ} {following' : Token → Parse δ}
    (moves : ∀ {cursor}, holds cursor →
      (cursor.peekAt 0).kind = .identifier ∧ after cursor.advance)
    (behind : ∀ {token image}, m.NameImage token image →
      m.Beside after place post (following token) (following' image)) :
    m.Beside holds place post (Parse.take >>= following) (Parse.take >>= following') := by
  refine Beside.bind (fun token cursor => token.kind = .identifier ∧ after cursor)
    tracks_take moves ?_
  intro token image twin cursor cursor' linked known inside
  exact behind (twin.nameImage known.1) cursor cursor' linked known.2 inside

/-- What follows a token that is taken unless one was is read side by side. -/
theorem bindMoving {before : Nat} {following : Unit → Parse γ} {following' : Unit → Parse δ}
    (moves : ∀ {cursor}, holds cursor →
      after (if cursor.taken = before then cursor.advance else cursor))
    (behind : m.Beside after place post (following ()) (following' ())) :
    m.Beside holds place post (Parse.keepMoving before >>= following)
      (Parse.keepMoving (before + m.lead) >>= following') := by
  refine Beside.bind (fun _ => after) (same_keepMoving before) ?_ fun _ => behind
  intro cursor here
  have moved := moves here
  change after (cursor.advanceBy (if cursor.taken == before then 1 else 0))
  by_cases same : cursor.taken = before
  · rw [if_pos same] at moved
    rwa [if_pos (beq_iff_eq.mpr same)]
  · rw [if_neg same] at moved
    rwa [if_neg (fun equal => same (beq_iff_eq.mp equal))]

/-- Reading at linked places, with names and spans exchanged. -/
def steps (m : Mirror) : Parse.Steps where
  Rel := m.Beside
  Name _ _ := m.NameImage
  Spelled := m.NameImage
  Mark := m.TokenImage
  Place span image := m.visitor.span span = .ok image
  Start := m.Moves
  Count count count' := count' = count + m.lead
  bounded := False
  pure here _ _ linked _ _ := ⟨⟨_, Nat.le_refl _, here⟩, linked⟩
  bind {_ _ _ _ _ _ _ _ first second following following'} after moves here behind := by
    intro cursor image linked known inside
    have halfway :=
      Nat.le_trans ((following (first.run cursor).1).taken_le (first.run cursor).2) inside
    obtain ⟨⟨middle, order, related⟩, linked'⟩ := here cursor image linked known halfway
    obtain ⟨count, stops⟩ := first.advances cursor
    obtain ⟨⟨stop, order', related'⟩, linked''⟩ :=
      behind order related _ _ linked' (stops ▸ moves count known) inside
    exact ⟨⟨stop, Nat.le_trans order order', related'⟩, linked''⟩
  imp wider implies cursor image linked here := wider cursor image linked (implies here)
  never nowhere _ _ _ here := absurd here nowhere
  plain plain := (same_of_plain plain).beside
  ask {_ _ _ holds _ _ answer _ _} plain behind :=
    .bind (fun value cursor => holds cursor ∧ answer cursor = value) (same_of_plain plain)
      (fun here => ⟨here, rfl⟩) fun equal => equal ▸ behind
  take after moves behind :=
    .bind (fun _ => after) tracks_take moves fun twin => behind (Nat.le_refl _) twin
  takeName after moves behind := bindName moves fun name => behind (Nat.le_refl _) name
  names := tracks_names.beside
  moreNames := tracks_moreNames.beside
  nextSpan := tracks_nextSpan.beside
  nextStart := tracks_nextStart.beside
  spanFrom moves := (tracks_spanFrom moves).beside
  taken {_ _ holds _ _ _ _} behind :=
    .bind (fun count cursor => holds cursor ∧ cursor.taken = count) tracks_taken
      (fun here => ⟨here, rfl⟩) fun counts => behind counts
  keepMoving after counts moves behind := by
    cases counts
    exact bindMoving moves (behind (Nat.le_refl _))
  nameFrom _ name := name
  spelled name := name
  markSpan twin := twin.span_eq
  markUpTo opens closes := by
    rw [opens.span, closes.span]
    exact m.span_upTo opens.start closes.stop
  startPoint moves := by
    rw [moves.2]
    exact m.span_eq moves.1 moves.1 (Nat.le_refl _)

end Beside

end Mirror

end GoRefactor
