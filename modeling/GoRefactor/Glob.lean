/-!
# Glob patterns

Patterns for names and paths, and how they are read. Two stars are special only as a whole path
component; braces hold alternatives, brackets classes, and a backslash takes the next character
as it is.
-/

namespace GoRefactor

/-- A part of a pattern. -/
inductive GlobPart where
  /-- The bytes of a character. -/
  | literal (c : Char)
  /-- Any byte. -/
  | any
  /-- Any bytes. -/
  | star
  /-- Two stars in front: nothing, or any directories. -/
  | leading
  /-- Two stars at the end: anything below a directory. -/
  | trailing
  /-- Two stars between slashes: a slash, or any directories. -/
  | between
  /-- A byte within, or outside, some ranges of characters. -/
  | class (negated : Bool) (ranges : List (Char × Char))
  /-- One of several patterns. -/
  | choice (branches : List (List GlobPart))
deriving Repr, Inhabited

/-- Why a pattern cannot be read. -/
inductive GlobFlaw where
  | unclosedClass
  | invertedRange (first last : Char)
  | unopenedGroup
  | unclosedGroup
  | danglingEscape
deriving DecidableEq, Repr, Inhabited

/-- The flaw in words. -/
def GlobFlaw.message : GlobFlaw → String
  | .unclosedClass => "unclosed character class; missing ']'"
  | .invertedRange first last => s!"invalid range; '{first}' > '{last}'"
  | .unopenedGroup =>
    "unopened alternate group; missing '\x7b' (maybe escape '\x7d' with '[\x7d]'?)"
  | .unclosedGroup =>
    "unclosed alternate group; missing '\x7d' (maybe escape '\x7b' with '[\x7b]'?)"
  | .danglingEscape => "dangling '\\'"

namespace Glob

/-- A class under way. -/
structure OpenClass where
  /-- The class takes the bytes outside the ranges. -/
  negated : Bool
  /-- Ranges so far, the last one first. -/
  ranges : List (Char × Char)
  /-- No character was read yet. -/
  first : Bool
  /-- A dash waits for the end of a range. -/
  inRange : Bool

/-- The state of reading a pattern. -/
structure Reading where
  /-- Parts of the branch under way, the last one first. -/
  branch : List GlobPart
  /-- Earlier branches of the group under way, the last one first. -/
  siblings : List (List GlobPart)
  /-- Enclosing groups: their branch under way and its earlier siblings. -/
  outer : List (List GlobPart × List (List GlobPart))
  /-- The last character read. -/
  last : Option Char

namespace Reading

/-- Add a part to the branch under way. -/
def push (reading : Reading) (part : GlobPart) : Reading :=
  { reading with branch := part :: reading.branch }

/-- Some group is open. -/
def inGroup (reading : Reading) : Bool := !reading.outer.isEmpty

/-- Open a group. -/
def openGroup (reading : Reading) : Reading :=
  { reading with
    branch := []
    siblings := []
    outer := (reading.branch, reading.siblings) :: reading.outer }

/-- Start the next branch of the group. -/
def nextBranch (reading : Reading) : Reading :=
  { reading with branch := [], siblings := reading.branch.reverse :: reading.siblings }

/-- Close the group, if one is open. -/
def closeGroup? (reading : Reading) : Option Reading :=
  match reading.outer with
  | [] => none
  | (branch, siblings) :: outer =>
    let branches := (reading.branch.reverse :: reading.siblings).reverse
    some { reading with branch := .choice branches :: branch, siblings, outer }

/-- Replace the part before two stars that fill a path component. -/
def pushRecursive (reading : Reading) (part : GlobPart) : Reading :=
  match reading.branch with
  | .leading :: _ => reading
  | .trailing :: _ => reading
  | _ :: rest => { reading with branch := part :: rest }
  | [] => reading

/-- Two stars, with the character before them and the rest of the pattern behind them. Tells
whether the slash behind them was taken. -/
def twoStars (reading : Reading) (before : Option Char) (rest : List Char) : Reading × Bool :=
  let plain := (reading.push .star).push .star
  let next := rest.head?
  if reading.branch.isEmpty then
    match next with
    | none => (reading.push .leading, false)
    | some c => if c == '/' then (reading.push .leading, true) else (plain, false)
  else if before != some '/' &&
      (!reading.inGroup || (before != some ',' && before != some '\x7b')) then
    (plain, false)
  else
    match next with
    | none => (reading.pushRecursive .trailing, false)
    | some c =>
      if (c == ',' || c == '\x7d') && reading.inGroup then
        (reading.pushRecursive .trailing, false)
      else if c == '/' then (reading.pushRecursive .between, true)
      else (plain, false)

end Reading

/-- Take a character of a class; with nothing left over when the class ends. -/
def OpenClass.take (open_ : OpenClass) (c : Char) : Except GlobFlaw (Sum OpenClass GlobPart) :=
  let close (last : Char) : Except GlobFlaw (Sum OpenClass GlobPart) :=
    match open_.ranges with
    | (first, _) :: rest =>
      if last < first then .error (.invertedRange first last)
      else .ok (.inl ⟨open_.negated, (first, last) :: rest, false, false⟩)
    | [] => .ok (.inl ⟨open_.negated, [(last, last)], false, false⟩)
  let single : Except GlobFlaw (Sum OpenClass GlobPart) :=
    .ok (.inl ⟨open_.negated, (c, c) :: open_.ranges, false, false⟩)
  if c == ']' && !open_.first then
    let ranges := if open_.inRange then ('-', '-') :: open_.ranges else open_.ranges
    .ok (.inr (.class open_.negated ranges.reverse))
  else if c == ']' then single
  else if c == '-' then
    if open_.first then single
    else if open_.inRange then close '-'
    else .ok (.inl { open_ with inRange := true })
  else if open_.inRange then close c
  else single

/-- Where reading goes on: the state, the class under way, and how many further characters were
taken. -/
structure Step where
  /-- State after the step. -/
  reading : Reading
  /-- The class under way, if any. -/
  pending : Option OpenClass
  /-- Characters taken besides the first. -/
  extra : Nat

/-- Take one character, outside any class, with `rest` behind it. -/
def step (reading : Reading) (c : Char) (rest : List Char) : Except GlobFlaw Step :=
  let on (after : Reading) : Except GlobFlaw Step := .ok ⟨{ after with last := some c }, none, 0⟩
  match c with
  | '?' => on (reading.push .any)
  | '*' =>
    if rest.head? == some '*' then
      let (after, slash) := reading.twoStars reading.last rest.tail
      .ok ⟨{ after with last := some (if slash then '/' else '*') }, none, if slash then 2 else 1⟩
    else on (reading.push .star)
  | '[' =>
    match rest.head? with
    | some '!' => .ok ⟨{ reading with last := some '!' }, some ⟨true, [], true, false⟩, 1⟩
    | some '^' => .ok ⟨{ reading with last := some '^' }, some ⟨true, [], true, false⟩, 1⟩
    | _ => .ok ⟨{ reading with last := some c }, some ⟨false, [], true, false⟩, 0⟩
  | '\x7b' => on reading.openGroup
  | '\x7d' =>
    match reading.closeGroup? with
    | some closed => on closed
    | none => .error .unopenedGroup
  | ',' => if reading.inGroup then on reading.nextBranch else on (reading.push (.literal c))
  | '\\' =>
    match rest.head? with
    | some plain => .ok ⟨{ reading.push (.literal plain) with last := some plain }, none, 1⟩
    | none => .error .danglingEscape
  | _ => on (reading.push (.literal c))

/-- Take one character of a class. -/
def stepInClass (reading : Reading) (open_ : OpenClass) (c : Char) : Except GlobFlaw Step :=
  match open_.take c with
  | .error flaw => .error flaw
  | .ok (.inl more) => .ok ⟨{ reading with last := some c }, some more, 0⟩
  | .ok (.inr part) => .ok ⟨{ reading.push part with last := some c }, none, 0⟩

/-- Read the rest of a pattern. Inside a class, `pending` holds what was read of it. -/
def readFrom (reading : Reading) (pending : Option OpenClass) :
    List Char → Except GlobFlaw Reading
  | [] => if pending.isSome then .error .unclosedClass else .ok reading
  | c :: rest =>
    let taken :=
      match pending with
      | some open_ => stepInClass reading open_ c
      | none => step reading c rest
    match taken with
    | .error flaw => .error flaw
    | .ok next => readFrom next.reading next.pending (rest.drop next.extra)
termination_by cs => cs.length
decreasing_by
  simp only [List.length_drop, List.length_cons]
  omega

/-- Read a pattern. -/
def parse (pattern : String) : Except GlobFlaw (List GlobPart) :=
  match readFrom ⟨[], [], [], none⟩ none pattern.toList with
  | .error flaw => .error flaw
  | .ok reading => if reading.inGroup then .error .unclosedGroup else .ok reading.branch.reverse

/-- Bytes of a character. -/
def charBytes (c : Char) : List UInt8 := (String.singleton c).toUTF8.toList

mutual

/-- The part stands for nothing at all: a group whose branches are all empty. -/
def isVoid : GlobPart → Bool
  | .choice branches => allVoid branches
  | _ => false

/-- All parts of a branch stand for nothing. -/
def isVoidBranch : List GlobPart → Bool
  | [] => true
  | part :: parts => isVoid part && isVoidBranch parts

/-- All branches stand for nothing. -/
def allVoid : List (List GlobPart) → Bool
  | [] => true
  | branch :: branches => isVoidBranch branch && allVoid branches

end

end Glob

end GoRefactor
