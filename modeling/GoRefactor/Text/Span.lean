import GoRefactor.Text.Bytes

/-!
# Spans

A span is a half-open interval of byte offsets. Spans read from outside may be inverted, so
nothing here assumes that the start comes first; `Span.between?` is the checked constructor.
-/

namespace GoRefactor

/-- The bytes from `start` up to, and without, `stop`. -/
structure Span where
  /-- Offset of the first byte. -/
  start : Nat
  /-- Offset just past the last byte. -/
  stop : Nat
deriving DecidableEq, Repr, Inhabited

namespace Span

/-- The span between two offsets, refused when they are out of order. -/
def between? (start stop : Nat) : Option Span :=
  if start ≤ stop then some ⟨start, stop⟩ else none

/-- The empty span at an offset, where insertions go. -/
def point (offset : Nat) : Span := ⟨offset, offset⟩

/-- The span from `start` to `stop`, or the empty one at `start` when `stop` comes before. -/
def upTo (start stop : Nat) : Span := ⟨start, max stop start⟩

/-- Number of bytes covered; an inverted span covers none. -/
def length (span : Span) : Nat := span.stop - span.start

/-- The span starts where it ends. -/
def isEmpty (span : Span) : Bool := span.start == span.stop

/-- The two spans share a byte; touching spans do not. -/
def overlaps (left right : Span) : Bool :=
  left.start < right.stop && right.start < left.stop

/-- The second span lies inside the first. -/
def contains (outer inner : Span) : Bool :=
  outer.start ≤ inner.start && inner.stop ≤ outer.stop

/-- The characters a span covers, if it is in order, in bounds and cuts between characters. -/
def sliceChars? (span : Span) (content : List Char) : Option (List Char) :=
  if span.start ≤ span.stop then
    (dropBytes? span.start content).bind (takeBytes? (span.stop - span.start))
  else none

/-- The text a span covers, if it is in order, in bounds and cuts between characters. -/
def slice? (span : Span) (content : String) : Option String :=
  if span.start ≤ span.stop then textBetween? content span.start span.stop else none

/-- A span covers what stands between two cuts. -/
theorem sliceChars?_eq_some_iff {span : Span} {content middle : List Char} :
    span.sliceChars? content = some middle ↔
      span.start ≤ span.stop ∧ ∃ front back, content = front ++ middle ++ back ∧
        byteLength front = span.start ∧ byteLength middle = span.stop - span.start := by
  unfold sliceChars?
  split
  · rename_i order
    simp only [Option.bind_eq_some_iff, dropBytes?_eq_some_iff, takeBytes?_eq_some_iff, order,
      true_and]
    constructor
    · rintro ⟨rest, ⟨front, hcontent, hfront⟩, back, hrest, hmiddle⟩
      exact ⟨front, back, by rw [hcontent, hrest, List.append_assoc], hfront, hmiddle⟩
    · rintro ⟨front, back, hcontent, hfront, hmiddle⟩
      exact ⟨middle ++ back, ⟨front, by rw [hcontent, List.append_assoc], hfront⟩, back, rfl,
        hmiddle⟩
  · simp [*]

/-- A span covers what stands between two cuts. -/
theorem slice?_eq_some_iff {span : Span} {content middle : String} :
    span.slice? content = some middle ↔
      span.start ≤ span.stop ∧ ∃ front back, content = front ++ middle ++ back ∧
        front.utf8ByteSize = span.start ∧ middle.utf8ByteSize = span.stop - span.start := by
  unfold slice?
  split
  · rename_i order
    simp only [textBetween?_eq_some_iff order, order, true_and]
  · simp [*]

/-- Cutting a string is cutting its characters. -/
theorem slice?_eq_map_sliceChars? (span : Span) (content : String) :
    span.slice? content = (span.sliceChars? content.toList).map String.ofList := by
  apply Option.ext
  intro middle
  rw [Option.map_eq_some_iff, slice?_eq_some_iff]
  constructor
  · rintro ⟨order, front, back, hcontent, hfront, hmiddle⟩
    refine ⟨middle.toList, sliceChars?_eq_some_iff.2 ⟨order, front.toList, back.toList, ?_, ?_, ?_⟩,
      String.ofList_toList⟩
    · rw [hcontent, String.toList_append, String.toList_append]
    · rw [byteLength_toList, hfront]
    · rw [byteLength_toList, hmiddle]
  · rintro ⟨chars, hchars, rfl⟩
    obtain ⟨order, front, back, hcontent, hfront, hmiddle⟩ := sliceChars?_eq_some_iff.1 hchars
    refine ⟨order, String.ofList front, String.ofList back, ?_, ?_, ?_⟩
    · rw [← String.ofList_append, ← String.ofList_append, ← hcontent, String.ofList_toList]
    · rw [utf8ByteSize_ofList, hfront]
    · rw [utf8ByteSize_ofList, hmiddle]

/-- Written form: `[start, stop)`. -/
def text (span : Span) : String := s!"[{span.start}, {span.stop})"

/-- Spans in reading order: by start, then by stop. -/
def le (left right : Span) : Bool :=
  left.start < right.start || (left.start == right.start && left.stop ≤ right.stop)

end Span

/-- Read the low 64 bits of a number as a signed word. -/
def signedWord (value : Int) : Int := value.bmod UInt64.size

/-- Move an offset by a signed distance in 64-bit arithmetic; below zero it stays at zero. -/
def shiftOffset (delta : Int) (offset : Nat) : Nat :=
  (signedWord (signedWord offset + delta)).toNat

/-- Move both ends of a span by a signed distance. -/
def Span.shifted (span : Span) (delta : Int) : Span :=
  ⟨shiftOffset delta span.start, shiftOffset delta span.stop⟩

end GoRefactor
