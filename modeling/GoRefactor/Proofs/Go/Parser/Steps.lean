import GoRefactor.Proofs.Go.Parser.Cursor

/-!
# Reading side by side

The parser's functions call each other, so what is to be proved of one of them must be proved of all
together, by induction on the depth of calls. This module says what that takes. `Steps` relates two
computations that read side by side, from places of which something is known: it holds of what reads
single tokens and is kept when computations are put together. A `Reading` adds how the values that
are read are related, and that each kind of value that the parser puts together is related when its
parts are. That every function of the parser is then related to itself is proved once, of every
reading.

Offsets say where values stand: a value is related between two of them, and a computation starts at
one and stops at another that is not in front of it. A reading in which the depth of calls matters
is `bounded`; its computations are related where there is room for them.
-/

namespace GoRefactor

namespace Parse

/-- The computation depends on the sorts of tokens only and not on how names are spelled. -/
inductive Plain : {α : Type} → Parse α → Prop
  | is (text : String) : Plain (is text)
  | isAny (texts : List String) : Plain (isAny texts)
  | isKind (kind : TokenKind) : Plain (isKind kind)
  | startsType : Plain startsType
  | unaryOp? : Plain unaryOp?
  | endsStatement : Plain endsStatement
  | endsOperand : Plain endsOperand
  | endsType : Plain endsType
  | paramIsNamed : Plain paramIsNamed
  | hasTypeParams : Plain hasTypeParams
  | selectorFollows : Plain selectorFollows
  | typeArgsFollow : Plain typeArgsFollow
  | methodFollows : Plain methodFollows
  | labelFollows : Plain labelFollows
  | fieldIsNamed : Plain fieldIsNamed
  | docHere : Plain docHere
  | skipTerminators : Plain skipTerminators
  | skipGroup : Plain skipGroup

/-- The test only says yes where a token is ahead. -/
def Sees (test : Parse Bool) : Prop :=
  ∃ answer, test = query answer ∧
    ∀ cursor, (cursor.peekAt 0).kind = .finish → answer cursor = false

section Sees

/-- A keyword or mark is a token. -/
theorem is_eq_false_of_finish {token : Token} (finishes : token.kind = .finish) (text : String) :
    token.is text = false := by
  unfold Token.is
  rw [finishes]
  rfl

/-- Where a keyword or mark comes next, a token is ahead. -/
theorem sees_is (text : String) : Sees (is text) :=
  ⟨_, rfl, fun _ finishes => is_eq_false_of_finish finishes text⟩

/-- Where one of some keywords or marks comes next, a token is ahead. -/
theorem sees_isAny (texts : List String) : Sees (isAny texts) :=
  ⟨_, rfl, fun cursor finishes => List.any_eq_false.mpr fun text _ => by
    rw [is_eq_false_of_finish finishes text]
    exact Bool.false_ne_true⟩

/-- A label is a name and a colon. -/
theorem sees_labelFollows : Sees labelFollows :=
  ⟨_, rfl, fun _ finishes => by
    rw [finishes]
    rfl⟩

end Sees

/-- How two computations read side by side. -/
structure Steps where
  /-- From places of which something is known and whose last token ended at an offset, the
  computations give values that are related up to the offset where they stop. -/
  Rel {α β : Type} (holds : Cursor → Prop) (place : Nat) (post : Nat → α → β → Prop)
    (first : Parse α) (second : Parse β) : Prop
  /-- Two names between two offsets. -/
  Name : Nat → Nat → Token → Token → Prop
  /-- Two names. -/
  Spelled : Token → Token → Prop
  /-- Two tokens. -/
  Mark : Token → Token → Prop
  /-- Two spans. -/
  Place : Span → Span → Prop
  /-- Two offsets at which tokens start. -/
  Start : Nat → Nat → Prop
  /-- Two numbers of tokens taken. -/
  Count : Nat → Nat → Prop
  /-- The depth of calls matters. -/
  bounded : Prop
  pure {α β : Type} {holds : Cursor → Prop} {place : Nat} {post : Nat → α → β → Prop} {value : α}
    {image : β} : post place value image →
      Rel holds place post (Pure.pure value) (Pure.pure image)
  /-- One computation after the other. What is known of the place is still known behind tokens. -/
  bind {α β γ δ : Type} {holds : Cursor → Prop} {place : Nat} {middle : Nat → α → β → Prop}
    {post : Nat → γ → δ → Prop} {first : Parse α} {second : Parse β} {following : α → Parse γ}
    {following' : β → Parse δ} (after : Cursor → Prop) :
    (∀ {cursor} count, holds cursor → after (cursor.advanceBy count)) →
      Rel holds place middle first second →
      (∀ {stop value image}, place ≤ stop → middle stop value image →
        Rel after stop post (following value) (following' image)) →
      Rel holds place post (first >>= following) (second >>= following')
  /-- More may be known of the place. -/
  imp {α β : Type} {holds wider : Cursor → Prop} {place : Nat} {post : Nat → α → β → Prop}
    {first : Parse α} {second : Parse β} : Rel wider place post first second →
      (∀ {cursor}, holds cursor → wider cursor) → Rel holds place post first second
  /-- From no place at all. -/
  never {α β : Type} {holds : Cursor → Prop} {place : Nat} {post : Nat → α → β → Prop}
    {first : Parse α} {second : Parse β} : (∀ {cursor}, ¬ holds cursor) →
      Rel holds place post first second
  /-- What does not depend on names is the same. -/
  plain {α : Type} {holds : Cursor → Prop} {place : Nat} {parse : Parse α} : Plain parse →
    Rel holds place (fun _ => Eq) parse parse
  /-- A query tells the same, and something of the place. -/
  ask {α β γ : Type} {holds : Cursor → Prop} {place : Nat} {post : Nat → β → γ → Prop}
    {answer : Cursor → α} {following : α → Parse β} {following' : α → Parse γ} :
    Plain (query answer) →
      (∀ {value}, Rel (fun cursor => holds cursor ∧ answer cursor = value) place post
        (following value) (following' value)) →
      Rel holds place post (query answer >>= following) (query answer >>= following')
  /-- The next tokens. -/
  take {α β : Type} {holds : Cursor → Prop} {place : Nat} {post : Nat → α → β → Prop}
    {following : Token → Parse α} {following' : Token → Parse β} (after : Cursor → Prop) :
    (∀ {cursor}, holds cursor → after cursor.advance) →
      (∀ {stop token image}, place ≤ stop → Mark token image →
        Rel after stop post (following token) (following' image)) →
      Rel holds place post (Parse.take >>= following) (Parse.take >>= following')
  /-- The next tokens where a name comes next. -/
  takeName {α β : Type} {holds : Cursor → Prop} {place : Nat} {post : Nat → α → β → Prop}
    {following : Token → Parse α} {following' : Token → Parse β} (after : Cursor → Prop) :
    (∀ {cursor}, holds cursor → (cursor.peekAt 0).kind = .identifier ∧ after cursor.advance) →
      (∀ {stop token image}, place ≤ stop → Name place stop token image →
        Rel after stop post (following token) (following' image)) →
      Rel holds place post (Parse.take >>= following) (Parse.take >>= following')
  names {holds : Cursor → Prop} {place : Nat} :
    Rel holds place (fun _ => List.Forall₂ Spelled) Parse.names Parse.names
  moreNames {holds : Cursor → Prop} {place : Nat} :
    Rel holds place (fun _ => List.Forall₂ Spelled) Parse.moreNames Parse.moreNames
  nextSpan {holds : Cursor → Prop} {place : Nat} :
    Rel holds place (fun _ => Place) Parse.nextSpan Parse.nextSpan
  nextStart {holds : Cursor → Prop} {place : Nat} :
    Rel holds place (fun _ => Start) Parse.nextStart Parse.nextStart
  spanFrom {holds : Cursor → Prop} {place : Nat} {start start' : Nat} : Start start start' →
    Rel holds place (fun _ => Place) (Parse.spanFrom start) (Parse.spanFrom start')
  /-- How many tokens were taken. -/
  taken {α β : Type} {holds : Cursor → Prop} {place : Nat} {post : Nat → α → β → Prop}
    {following : Nat → Parse α} {following' : Nat → Parse β} :
    (∀ {count count'}, Count count count' →
      Rel (fun cursor => holds cursor ∧ cursor.taken = count) place post (following count)
        (following' count')) →
      Rel holds place post (Parse.taken >>= following) (Parse.taken >>= following')
  /-- A token is taken unless one was. -/
  keepMoving {α β : Type} {holds : Cursor → Prop} {place : Nat} {post : Nat → α → β → Prop}
    {before before' : Nat} {following : Unit → Parse α} {following' : Unit → Parse β}
    (after : Cursor → Prop) :
    Count before before' →
      (∀ {cursor}, holds cursor →
        after (if cursor.taken = before then cursor.advance else cursor)) →
      (∀ {stop}, place ≤ stop → Rel after stop post (following ()) (following' ())) →
      Rel holds place post (Parse.keepMoving before >>= following)
        (Parse.keepMoving before' >>= following')
  /-- Names have more room further apart. -/
  nameFrom {low middle high : Nat} {token image : Token} : low ≤ middle →
    Name middle high token image → Name low high token image
  spelled {low high : Nat} {token image : Token} : Name low high token image →
    Spelled token image
  markSpan {token image : Token} : Mark token image → Place token.span image.span
  markUpTo {opening opening' closing closing' : Token} : Mark opening opening' →
    Mark closing closing' → Place (Span.upTo opening.span.start closing.span.stop)
      (Span.upTo opening'.span.start closing'.span.stop)
  startPoint {start start' : Nat} : Start start start' →
    Place (Span.point start) (Span.point start')

namespace Steps

/-- There is room, where it matters. -/
def Fits (S : Steps) (depth rank : Nat) (cursor : Cursor) : Prop :=
  S.bounded → cursor.Fits depth rank

/-- There is room and a token ahead, where it matters. -/
def Inside (S : Steps) (depth rank : Nat) (cursor : Cursor) : Prop :=
  S.bounded → cursor.Inside depth rank

/-- There is room and a token ahead or taken, where it matters. -/
def Since (S : Steps) (before depth rank : Nat) (cursor : Cursor) : Prop :=
  S.bounded → cursor.Since before depth rank

instance (S : Steps) (depth rank : Nat) : Cursor.Stable (S.Fits depth rank) :=
  ⟨fun cursor fits bounded => Cursor.Stable.advance cursor (fits bounded)⟩

instance (S : Steps) (before depth rank : Nat) : Cursor.Stable (S.Since before depth rank) :=
  ⟨fun cursor since bounded => Cursor.Stable.advance cursor (since bounded)⟩

/-- What is read from places where something is known, behind any offset. -/
def Reads {α β : Type} (S : Steps) (holds : Cursor → Prop) (post : Nat → Nat → α → β → Prop)
    (first : Parse α) (second : Parse β) : Prop :=
  ∀ low {place}, low ≤ place → S.Rel holds place (post low) first second

variable {S : Steps} {α β γ δ ε : Type} {holds after : Cursor → Prop} {place : Nat}
  {depth rank lower before : Nat}

namespace Rel

/-! ## Putting computations together -/

section Rules

variable {middle : Nat → α → β → Prop} {post : Nat → γ → δ → Prop} {first : Parse α}
  {second : Parse β} {parse other : Parse γ} {parse' other' : Parse δ}

/-- Values are read side by side if they are related where the computations start. -/
theorem pure {value : γ} {image : δ} (here : post place value image) :
    S.Rel holds place post (Pure.pure value) (Pure.pure image) := S.pure here

/-- Two computations in a row are read side by side, from a place of which the same stays known. -/
theorem bind [Cursor.Stable holds] {following : α → Parse γ} {following' : β → Parse δ}
    (here : S.Rel holds place middle first second)
    (behind : ∀ {stop value image}, place ≤ stop → middle stop value image →
      S.Rel holds stop post (following value) (following' image)) :
    S.Rel holds place post (first >>= following) (second >>= following') :=
  S.bind _ (fun count here => Cursor.Stable.advanceBy here count) here behind

/-- What follows values is read side by side as if it stood alone. -/
theorem pure_bind {value : α} {image : β} {following : α → Parse γ} {following' : β → Parse δ}
    (behind : S.Rel holds place post (following value) (following' image)) :
    S.Rel holds place post (Pure.pure value >>= following) (Pure.pure image >>= following') :=
  behind

/-- Values that are changed are related if the changes keep them so. -/
theorem map [Cursor.Stable holds] {change : α → γ} {change' : β → δ}
    (here : S.Rel holds place middle first second)
    (changes : ∀ {stop value image}, place ≤ stop → middle stop value image →
      post stop (change value) (change' image)) :
    S.Rel holds place post (change <$> first) (change' <$> second) :=
  bind here fun order related => pure (changes order related)

/-- The relation may be weaker. -/
theorem weaken [Cursor.Stable holds] {weaker : Nat → α → β → Prop}
    (here : S.Rel holds place middle first second)
    (implies : ∀ {stop value image}, place ≤ stop → middle stop value image →
      weaker stop value image) : S.Rel holds place weaker first second :=
  bind here fun order related => pure (implies order related)

/-- Computations that choose alike are read side by side if both sides are. -/
theorem ite {test test' : Prop} [Decidable test] [Decidable test'] (same : test ↔ test')
    (passes : S.Rel holds place post parse parse') (fails : S.Rel holds place post other other') :
    S.Rel holds place post (if test then parse else other) (if test' then parse' else other') := by
  by_cases yes : test
  · rw [if_pos yes, if_pos (same.mp yes)]
    exact passes
  · rw [if_neg yes, if_neg (fun yes' => yes (same.mpr yes'))]
    exact fails

/-- What follows values that are the same is read side by side for each value. -/
theorem equally [Cursor.Stable holds] {asked asked' : Parse ε} {following : ε → Parse γ}
    {following' : ε → Parse δ} (here : S.Rel holds place (fun _ => Eq) asked asked')
    (behind : ∀ {stop value}, place ≤ stop →
      S.Rel holds stop post (following value) (following' value)) :
    S.Rel holds place post (asked >>= following) (asked' >>= following') :=
  bind here fun order equal => equal ▸ behind order

/-- What follows a value that does not depend on names is read side by side for each value. -/
theorem same [Cursor.Stable holds] {asked : Parse ε} {following : ε → Parse γ}
    {following' : ε → Parse δ} (plain : Plain asked)
    (behind : ∀ {stop value}, place ≤ stop →
      S.Rel holds stop post (following value) (following' value)) :
    S.Rel holds place post (asked >>= following) (asked >>= following') :=
  equally (S.plain plain) behind

/-- Computations that choose as such a test says are read side by side if both sides are. -/
theorem when [Cursor.Stable holds] {test : Parse Bool} (plain : Plain test)
    (passes : ∀ {stop}, place ≤ stop → S.Rel holds stop post parse parse')
    (fails : ∀ {stop}, place ≤ stop → S.Rel holds stop post other other') :
    S.Rel holds place post (test >>= fun yes => if yes = true then parse else other)
      (test >>= fun yes => if yes = true then parse' else other') :=
  same plain fun order => ite Iff.rfl (passes order) (fails order)

end Rules

/-! ## Taking tokens -/

section Tokens

variable {post : Nat → γ → δ → Prop} {parse other : Parse γ} {parse' other' : Parse δ}

/-- A token is taken on both sides, from a place of which the same stays known. -/
theorem mark [Cursor.Stable holds] : S.Rel holds place (fun _ => S.Mark) Parse.take Parse.take :=
  S.take _ (fun here => Cursor.Stable.advance _ here) fun _ related => pure related

/-- Behind a token that is ahead, there is room for every function. -/
theorem take {following : Token → Parse γ} {following' : Token → Parse δ}
    (behind : ∀ {stop token image}, place ≤ stop → S.Mark token image →
      S.Rel (S.Fits depth 9) stop post (following token) (following' image)) :
    S.Rel (S.Inside depth rank) place post (Parse.take >>= following)
      (Parse.take >>= following') :=
  S.take _ (fun inside bounded => (inside bounded).advance) behind

/-- A keyword or mark that may come next. -/
theorem eaten [Cursor.Stable holds] {text : String} {following : Bool → Parse γ}
    {following' : Bool → Parse δ}
    (behind : ∀ {stop yes}, place ≤ stop →
      S.Rel holds stop post (following yes) (following' yes)) :
    S.Rel holds place post (Parse.eat text >>= following) (Parse.eat text >>= following') := by
  rw [eat_bind, eat_bind]
  refine when (.is text) (fun order => bind mark fun further _ => ?_) fun order => behind order
  exact behind (Nat.le_trans order further)

/-- An optional keyword or mark is passed over. -/
theorem skip [Cursor.Stable holds] {text : String} {following : Unit → Parse γ}
    {following' : Unit → Parse δ}
    (behind : ∀ {stop}, place ≤ stop →
      S.Rel holds stop post (following ()) (following' ())) :
    S.Rel holds place post (Parse.skip text >>= following) (Parse.skip text >>= following') := by
  change S.Rel holds place post (Parse.eat text >>= fun _ => following ())
    (Parse.eat text >>= fun _ => following' ())
  exact eaten behind

/-- A token that may come next is passed over on both sides or on none. -/
theorem mayTake [Cursor.Stable holds] {test : Parse Bool} (plain : Plain test) :
    S.Rel holds place (fun _ _ _ => True) (takeIf test) (takeIf test) :=
  when plain (fun _ => bind mark fun _ _ => pure trivial) fun _ => pure trivial

end Tokens

/-! ## Names -/

section Names

variable {post : Nat → γ → δ → Prop} {following : Token → Parse γ}
  {following' : Token → Parse δ} {other : Parse γ} {other' : Parse δ}

/-- Behind a test that tells that a name comes next, a name is taken. -/
theorem nameWhere {test : Parse Bool} (plain : Plain test) (tells : TellsName test)
    (moves : ∀ {cursor}, holds cursor → (cursor.peekAt 0).kind = .identifier →
      after cursor.advance)
    (found : ∀ {stop token image}, place ≤ stop → S.Name place stop token image →
      S.Rel after stop post (following token) (following' image))
    (missed : S.Rel holds place post other other') :
    S.Rel holds place post
      (test >>= fun yes => if yes = true then Parse.take >>= following else other)
      (test >>= fun yes => if yes = true then Parse.take >>= following' else other') := by
  obtain ⟨answer, rfl, told⟩ := tells
  refine S.ask plain fun {yes} => ?_
  cases yes with
  | true => exact S.takeName _ (fun known => ⟨told _ known.2, moves known.1 (told _ known.2)⟩) found
  | false => exact S.imp missed fun known => known.1

/-- Behind a test that tells that a name comes next, a name is taken from a place of which the same
stays known. -/
theorem name [Cursor.Stable holds] {test : Parse Bool} (plain : Plain test)
    (tells : TellsName test)
    (found : ∀ {stop token image}, place ≤ stop → S.Name place stop token image →
      S.Rel holds stop post (following token) (following' image))
    (missed : S.Rel holds place post other other') :
    S.Rel holds place post
      (test >>= fun yes => if yes = true then Parse.take >>= following else other)
      (test >>= fun yes => if yes = true then Parse.take >>= following' else other') :=
  nameWhere plain tells (fun here _ => Cursor.Stable.advance _ here) found missed

/-- Behind a name that is taken, there is room for every function. -/
theorem nameAhead {test : Parse Bool} (plain : Plain test) (tells : TellsName test)
    (found : ∀ {stop token image}, place ≤ stop → S.Name place stop token image →
      S.Rel (S.Fits depth 9) stop post (following token) (following' image))
    (missed : S.Rel (S.Fits depth rank) place post other other') :
    S.Rel (S.Fits depth rank) place post
      (test >>= fun yes => if yes = true then Parse.take >>= following else other)
      (test >>= fun yes => if yes = true then Parse.take >>= following' else other') := by
  refine nameWhere plain tells (fun fits named bounded => ?_) found missed
  refine Cursor.Inside.advance ⟨fits bounded, fun done => ?_⟩
  rw [(fits bounded).kind_of_nil done] at named
  cases named

/-- A name that may come next is taken on both sides or on none. -/
theorem mayName [Cursor.Stable holds] {test : Parse Bool} (plain : Plain test)
    (tells : TellsName test) :
    S.Rel holds place (fun _ => Option.Rel S.Spelled) (takeIf test) (takeIf test) :=
  name plain tells (fun _ named => pure (.some (S.spelled named))) (pure .none)

/-- Behind a dot that a name follows, the name is taken. -/
theorem selector [Cursor.Stable holds]
    (found : ∀ {stop token image}, place ≤ stop → S.Name place stop token image →
      S.Rel holds stop post (following token) (following' image))
    (missed : S.Rel holds place post other other') :
    S.Rel holds place post
      (selectorFollows >>= fun yes =>
        if yes = true then Parse.take >>= fun _ => Parse.take >>= following else other)
      (selectorFollows >>= fun yes =>
        if yes = true then Parse.take >>= fun _ => Parse.take >>= following' else other') := by
  refine S.ask .selectorFollows fun {yes} => ?_
  cases yes with
  | false => exact S.imp missed fun known => known.1
  | true =>
    have named {cursor : Cursor} (known : holds cursor ∧ ((cursor.peekAt 0).is "." &&
        (cursor.peekAt 1).kind == .identifier) = true) :
        holds cursor.advance ∧ (cursor.advance.peekAt 0).kind = .identifier := by
      refine ⟨Cursor.Stable.advance _ known.1, ?_⟩
      have second := eq_of_beq (Bool.and_eq_true_iff.mp known.2).2
      unfold Cursor.peekAt at second ⊢
      rw [Cursor.ahead_advance, Cursor.finish_advance, List.getElem?_tail]
      exact second
    exact S.take (fun cursor => holds cursor ∧ (cursor.peekAt 0).kind = .identifier) named
      fun order _ =>
      S.takeName _ (fun known => ⟨known.2, Cursor.Stable.advance _ known.1⟩) fun further name =>
        found (Nat.le_trans order further) (S.nameFrom order name)

end Names

/-! ## Room -/

section Room

variable {post : Nat → γ → δ → Prop} {parse other : Parse γ} {parse' other' : Parse δ}
  {depth rank lower before : Nat}

/-- What needs less room is related where there is more. -/
theorem low (here : S.Rel (S.Fits depth lower) place post parse parse') (less : lower ≤ rank) :
    S.Rel (S.Fits depth rank) place post parse parse' :=
  S.imp here fun fits bounded => (fits bounded).low less

/-- A call takes one of the depth. -/
theorem call (here : S.Rel (S.Fits depth rank) place post parse parse') :
    S.Rel (S.Fits (depth + 1) (rank + 1)) place post parse parse' :=
  S.imp here fun fits bounded =>
    ⟨(fits bounded).finishes, by have room := (fits bounded).room; omega⟩

/-- Behind a test that says yes a token is ahead. -/
theorem testWhere {test : Parse Bool} {choose : Bool → Bool} (plain : Plain test)
    (sees : Sees test) (only : choose false = false)
    (passes : S.Rel (S.Inside depth rank) place post parse parse')
    (fails : S.Rel (S.Fits depth rank) place post other other') :
    S.Rel (S.Fits depth rank) place post
      (test >>= fun yes => if choose yes = true then parse else other)
      (test >>= fun yes => if choose yes = true then parse' else other') := by
  obtain ⟨answer, rfl, misses⟩ := sees
  refine S.ask plain fun {yes} => ?_
  by_cases chosen : choose yes = true
  · rw [if_pos chosen, if_pos chosen]
    refine S.imp passes fun known bounded => ⟨known.1 bounded, fun done => ?_⟩
    have no := known.2.symm.trans (misses _ ((known.1 bounded).kind_of_nil done))
    rw [no, only] at chosen
    cases chosen
  · rw [if_neg chosen, if_neg chosen]
    exact S.imp fails fun known => known.1

/-- Behind a test that says yes a token is ahead. -/
theorem test {test : Parse Bool} (plain : Plain test) (sees : Sees test)
    (passes : S.Rel (S.Inside depth rank) place post parse parse')
    (fails : S.Rel (S.Fits depth rank) place post other other') :
    S.Rel (S.Fits depth rank) place post
      (test >>= fun yes => if yes = true then parse else other)
      (test >>= fun yes => if yes = true then parse' else other') :=
  testWhere plain sees rfl passes fails

/-- Where a unary operator comes next, a token is ahead. -/
theorem operator {found : UnaryOp → Parse γ} {found' : UnaryOp → Parse δ}
    (passes : ∀ op, S.Rel (S.Inside depth rank) place post (found op) (found' op))
    (fails : S.Rel (S.Fits depth rank) place post other other') :
    S.Rel (S.Fits depth rank) place post
      (unaryOp? >>= fun operator => match operator with
        | some op => found op
        | none => other)
      (unaryOp? >>= fun operator => match operator with
        | some op => found' op
        | none => other') := by
  refine S.ask .unaryOp? fun {operator} => ?_
  cases operator with
  | none => exact S.imp fails fun known => known.1
  | some op =>
    refine S.imp (passes op) fun known bounded => ⟨known.1 bounded, fun done => ?_⟩
    have found := known.2
    unfold Token.unaryOp? at found
    simp only [is_eq_false_of_finish ((known.1 bounded).kind_of_nil done)] at found
    cases found

/-- Behind a keyword or mark that is taken there is room for every function. -/
theorem eat {text : String}
    (passes : ∀ {stop}, place ≤ stop → S.Rel (S.Fits depth 9) stop post parse parse')
    (fails : S.Rel (S.Fits depth rank) place post other other') :
    S.Rel (S.Fits depth rank) place post
      (Parse.eat text >>= fun yes => if yes = true then parse else other)
      (Parse.eat text >>= fun yes => if yes = true then parse' else other') := by
  rw [eat_bind, eat_bind]
  exact test (.is text) (sees_is text) (take fun order _ => passes order) fails

/-- Where a keyword or mark is not taken, a token is still ahead. -/
theorem eatInside {text : String}
    (passes : ∀ {stop}, place ≤ stop → S.Rel (S.Fits depth 9) stop post parse parse')
    (fails : S.Rel (S.Inside depth rank) place post other other') :
    S.Rel (S.Inside depth rank) place post
      (Parse.eat text >>= fun yes => if yes = true then parse else other)
      (Parse.eat text >>= fun yes => if yes = true then parse' else other') := by
  rw [eat_bind, eat_bind]
  refine S.ask (.is text) fun {yes} => ?_
  cases yes with
  | true => exact S.imp (take fun order _ => passes order) fun known => known.1
  | false => exact S.imp fails fun known => known.1

/-- A loop ends at the end or before its closing mark; else a token is ahead. -/
theorem untilSeen {text : String}
    (passes : S.Rel (S.Fits depth rank) place post parse parse')
    (fails : S.Rel (S.Inside depth rank) place post other other') :
    S.Rel (S.Fits depth rank) place post
      (atEnd >>= fun ended => Parse.is text >>= fun closed =>
        if (ended || closed) = true then parse else other)
      (atEnd >>= fun ended => Parse.is text >>= fun closed =>
        if (ended || closed) = true then parse' else other') := by
  refine S.ask (.isKind .finish) fun {ended} => ?_
  refine S.ask (.is text) fun {closed} => ?_
  by_cases done : (ended || closed) = true
  · rw [if_pos done, if_pos done]
    exact S.imp passes fun known => known.1.1
  · rw [if_neg done, if_neg done]
    refine S.imp fails fun known bounded => ⟨known.1.1 bounded, fun none => done ?_⟩
    rw [← known.1.2, (known.1.1 bounded).kind_of_nil none]
    rfl

/-- A loop ends at the end or behind its closing mark; else a token is ahead. -/
theorem untilEaten {text : String}
    (passes : ∀ {stop}, place ≤ stop → S.Rel (S.Fits depth rank) stop post parse parse')
    (fails : S.Rel (S.Inside depth rank) place post other other') :
    S.Rel (S.Fits depth rank) place post
      (atEnd >>= fun ended => Parse.eat text >>= fun closed =>
        if (ended || closed) = true then parse else other)
      (atEnd >>= fun ended => Parse.eat text >>= fun closed =>
        if (ended || closed) = true then parse' else other') := by
  simp only [eat_bind, Bool.or_true, if_true, Bool.or_false]
  refine S.ask (.isKind .finish) fun {ended} => ?_
  refine S.ask (.is text) fun {closed} => ?_
  cases closed with
  | true =>
    exact S.take _ (fun known => Cursor.Stable.advance _ known.1.1) fun order _ => passes order
  | false =>
    cases ended with
    | true => exact S.imp (passes (Nat.le_refl place)) fun known => known.1.1
    | false =>
      refine S.imp fails fun known bounded => ⟨known.1.1 bounded, fun none => ?_⟩
      have going := known.1.2
      rw [(known.1.1 bounded).kind_of_nil none] at going
      cases going

/-- Before the end a token is ahead. -/
theorem untilEnd (passes : S.Rel (S.Fits depth rank) place post parse parse')
    (fails : S.Rel (S.Inside depth rank) place post other other') :
    S.Rel (S.Fits depth rank) place post
      (atEnd >>= fun ended => if ended = true then parse else other)
      (atEnd >>= fun ended => if ended = true then parse' else other') := by
  refine S.ask (.isKind .finish) fun {ended} => ?_
  cases ended with
  | true => exact S.imp passes fun known => known.1
  | false =>
    refine S.imp fails fun known bounded => ⟨known.1 bounded, fun none => ?_⟩
    have going := known.2
    rw [(known.1 bounded).kind_of_nil none] at going
    cases going

/-- A round of a loop starts with a token ahead. -/
theorem round {following : Nat → Parse γ} {following' : Nat → Parse δ}
    (behind : ∀ {before before'}, S.Count before before' →
      S.Rel (S.Since before depth rank) place post (following before) (following' before')) :
    S.Rel (S.Inside depth rank) place post (Parse.taken >>= following)
      (Parse.taken >>= following') :=
  S.taken fun counts => S.imp (behind counts) fun known bounded =>
    ⟨Nat.le_of_eq known.2.symm, fun _ => known.1 bounded, fun moved => absurd known.2 moved⟩

/-- At the end of a round a token was taken. -/
theorem moved {before' : Nat} {following : Unit → Parse γ} {following' : Unit → Parse δ}
    (counts : S.Count before before')
    (behind : ∀ {stop}, place ≤ stop →
      S.Rel (S.Fits depth 9) stop post (following ()) (following' ())) :
    S.Rel (S.Since before depth rank) place post (Parse.keepMoving before >>= following)
      (Parse.keepMoving before' >>= following') := by
  refine S.keepMoving _ counts (fun since bounded => ?_) behind
  split
  · rename_i here
    exact ((since bounded).waiting here).advance
  · rename_i moved
    exact (since bounded).moved moved

/-- What follows a computation with a token ahead has room at least. -/
theorem bindInside {middle : Nat → α → β → Prop} {first : Parse α} {second : Parse β}
    {following : α → Parse γ} {following' : β → Parse δ}
    (here : S.Rel (S.Inside depth rank) place middle first second)
    (behind : ∀ {stop value image}, place ≤ stop → middle stop value image →
      S.Rel (S.Fits depth rank) stop post (following value) (following' image)) :
    S.Rel (S.Inside depth rank) place post (first >>= following) (second >>= following') :=
  S.bind _ (fun count inside bounded => Cursor.Stable.advanceBy (inside bounded).toFits count)
    here behind

/-- The relation may be weaker for what is read with a token ahead. -/
theorem weakenInside {middle weaker : Nat → α → β → Prop} {first : Parse α} {second : Parse β}
    (here : S.Rel (S.Inside depth rank) place middle first second)
    (implies : ∀ {stop value image}, middle stop value image → weaker stop value image) :
    S.Rel (S.Inside depth rank) place weaker first second :=
  bindInside here fun _ related => pure (implies related)

/-- A value may be changed that is read with a token ahead. -/
theorem mapInside {middle : Nat → α → β → Prop} {first : Parse α} {second : Parse β}
    {change : α → γ} {change' : β → δ}
    (here : S.Rel (S.Inside depth rank) place middle first second)
    (changes : ∀ {stop value image}, place ≤ stop → middle stop value image →
      post stop (change value) (change' image)) :
    S.Rel (S.Inside depth rank) place post (change <$> first) (change' <$> second) :=
  bindInside here fun order related => pure (changes order related)

end Room

end Rel

/-! ## Calls -/

namespace Reads

variable {post : Nat → Nat → α → β → Prop} {first : Parse α} {second : Parse β}

/-- What needs less room is read where there is more. -/
theorem low (reads : S.Reads (S.Fits depth lower) post first second) (less : lower ≤ rank) :
    S.Reads (S.Fits depth rank) post first second := fun low _ after => (reads low after).low less

/-- What needs less room is read in a loop. -/
theorem inLoop (reads : S.Reads (S.Fits depth lower) post first second) (less : lower ≤ rank)
    (bound : rank ≤ 9) : S.Reads (S.Since before depth rank) post first second :=
  fun low _ after =>
    S.imp (reads low after) fun since bounded => ((since bounded).fits bound).low less

/-- What needs less room is read with a token ahead. -/
theorem lowInside (reads : S.Reads (S.Inside depth lower) post first second)
    (less : lower ≤ rank) : S.Reads (S.Inside depth rank) post first second :=
  fun low _ after => S.imp (reads low after) fun inside bounded =>
    ⟨(inside bounded).toFits.low less, (inside bounded).goesOn⟩

/-- A call takes one of the depth. -/
theorem call (reads : S.Reads (S.Fits depth rank) post first second) :
    S.Reads (S.Fits (depth + 1) (rank + 1)) post first second :=
  fun low _ after => (reads low after).call

/-- A call takes one of the depth. -/
theorem callInside (reads : S.Reads (S.Inside depth rank) post first second) :
    S.Reads (S.Inside (depth + 1) (rank + 1)) post first second := fun low _ after =>
  S.imp (reads low after) fun inside bounded =>
    ⟨⟨(inside bounded).finishes, by have room := (inside bounded).room; omega⟩,
      (inside bounded).goesOn⟩

end Reads

end Steps

end Parse

end GoRefactor
